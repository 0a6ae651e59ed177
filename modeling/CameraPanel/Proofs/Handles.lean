import CameraPanel.Watchers
import Mathlib.Data.List.Induction
import Mathlib.Data.List.Nodup

/-!
# Handles of watchers

A handle that was given out names its own watcher until that one is removed, and nothing ever after, however often the
slot is used again.  For this the version of a slot never falls behind the handles that were given out for it, and is
ahead of them all while the slot is free (`Sound`).  The list of free slots has each of them once, so no watcher that is
still there is overwritten.  A new slot is made only if none is free, so there are no more slots than there can be
watchers, and no slot has the number of the null handle.
-/

namespace CameraPanel

private theorem Handle.eq_iff {h h' : Handle} : h = h' ↔ h.slot = h'.slot ∧ h.version = h'.version := by
  cases h
  cases h'
  simp

namespace Watchers

variable {τ α κ : Type}

/-! ### Slots -/

private theorem slot?_eq_some_iff {w : Watchers τ α} {n : Nat} {s : Slot τ α} :
    w.slot? n = some s ↔ ∃ front back, w.slots = front ++ s :: back ∧ n = front.length + 1 := by
  unfold slot?
  cases n with
  | zero => simp
  | succ n =>
    rw [if_neg (Nat.succ_ne_zero n), Nat.add_sub_cancel]
    constructor
    · intro h
      obtain ⟨hn, rfl⟩ := List.getElem?_eq_some_iff.1 h
      refine ⟨w.slots.take n, w.slots.drop (n + 1), ?_, ?_⟩
      · rw [List.getElem_cons_drop, List.take_append_drop]
      · rw [List.length_take_of_le (Nat.le_of_lt hn)]
    · rintro ⟨front, back, hslots, hn⟩
      obtain rfl : n = front.length := Nat.succ.inj hn
      rw [hslots]
      simp

/-- The slots after one of them was filled or cleared. -/
private theorem slot?_set {w : Watchers τ α} {n : Nat} {s : Slot τ α} (h : w.slot? n = some s) (s' : Slot τ α)
    (free : List Nat) (m : Nat) :
    slot? ⟨w.slots.set (n - 1) s', free⟩ m = if m = n then some s' else w.slot? m := by
  obtain ⟨front, back, hslots, rfl⟩ := slot?_eq_some_iff.1 h
  unfold slot?
  cases m with
  | zero => simp
  | succ m =>
    simp only [Nat.add_sub_cancel, Nat.succ_ne_zero, if_false, List.getElem?_set, hslots, Nat.add_right_cancel_iff]
    by_cases hm : front.length = m
    · subst hm
      simp
    · simp [hm, Ne.symm hm]

/-- The slots after one more was made. -/
private theorem slot?_append (w : Watchers τ α) (s : Slot τ α) (free : List Nat) (m : Nat) :
    slot? ⟨w.slots ++ [s], free⟩ m = if m = w.slots.length + 1 then some s else w.slot? m := by
  unfold slot?
  cases m with
  | zero => simp
  | succ m =>
    simp only [Nat.add_sub_cancel, Nat.succ_ne_zero, if_false, Nat.add_right_cancel_iff]
    rcases Nat.lt_trichotomy m w.slots.length with h | h | h
    · rw [List.getElem?_append_left h, if_neg (Nat.ne_of_lt h)]
    · simp [h]
    · rw [List.getElem?_eq_none (by simp; omega), List.getElem?_eq_none (Nat.le_of_lt h), if_neg (Nat.ne_of_gt h)]

private theorem slot?_length_succ (w : Watchers τ α) : w.slot? (w.slots.length + 1) = none := by
  simp [slot?]

private theorem get?_eq_some_iff {w : Watchers τ α} {h : Handle} {x : τ × α} :
    w.get? h = some x ↔ w.slot? h.slot = some ⟨h.version, some x⟩ := by
  unfold get?
  cases hs : w.slot? h.slot with
  | none => simp
  | some s =>
    obtain ⟨v, y⟩ := s
    by_cases hv : v = h.version <;> simp [hv]

private theorem get?_of_vacant {w : Watchers τ α} {h : Handle} (hs : ∀ s ∈ w.slot? h.slot, s.watcher = none) :
    w.get? h = none := by
  rw [Option.eq_none_iff_forall_ne_some]
  intro x hx
  have := hs _ (get?_eq_some_iff.1 hx)
  simp at this

private theorem size_set {w : Watchers τ α} {n : Nat} {s : Slot τ α} (h : w.slot? n = some s) (s' : Slot τ α)
    (free : List Nat) :
    size ⟨w.slots.set (n - 1) s', free⟩ + s.watcher.toList.length = w.size + s'.watcher.toList.length := by
  obtain ⟨front, back, hslots, rfl⟩ := slot?_eq_some_iff.1 h
  have hset : (front ++ s :: back).set front.length s' = front ++ s' :: back := by simp
  have hlen : ∀ r : Slot τ α, ((front ++ r :: back).filterMap (·.watcher)).length =
      (front.filterMap (·.watcher)).length + r.watcher.toList.length + (back.filterMap (·.watcher)).length := by
    intro r
    cases hr : r.watcher with
    | none => simp [List.filterMap_append, hr]
    | some x =>
      simp [List.filterMap_append, hr]
      omega
  simp only [size, toList, hslots, Nat.add_sub_cancel, hset, hlen]
  omega

/-! ### Free slots and versions -/

/-- The free slots are listed once each, and no handle that was given out is ahead of its slot. -/
structure Sound (w : Watchers τ α) (issued : List Handle) : Prop where
  free_nodup : w.free.Nodup
  mem_free : ∀ n, n ∈ w.free ↔ ∃ v, w.slot? n = some ⟨v, none⟩
  taken : w.size + w.free.length = w.slots.length
  within : w.slots.length ≤ capacity
  behind : ∀ h ∈ issued, ∃ s, w.slot? h.slot = some s ∧ h.version ≤ s.version ∧
    (s.watcher = none → h.version < s.version)
  distinct : issued.Nodup

private theorem Sound.empty : Sound (empty : Watchers τ α) [] where
  free_nodup := List.nodup_nil
  mem_free n := by simp [Watchers.empty, slot?]
  taken := rfl
  within := Nat.zero_le _
  behind := by simp
  distinct := List.nodup_nil

private theorem watch_of_room {w : Watchers τ α} (hroom : w.size ≠ capacity) (t : τ) (a : α) :
    w.watch t a = ((w.add t a).1, some (w.add t a).2) := by
  simp [watch, hroom]

private theorem watch_of_no_room {w : Watchers τ α} (hroom : w.size = capacity) (t : τ) (a : α) :
    w.watch t a = (w, none) := by
  simp [watch, hroom]

private theorem watch_eq_none_iff (w : Watchers τ α) (t : τ) (a : α) : (w.watch t a).2 = none ↔ w.size = capacity := by
  by_cases hroom : w.size = capacity
  · simp [watch_of_no_room hroom, hroom]
  · simp [watch_of_room hroom, hroom]

private theorem unwatch_of_some {w : Watchers τ α} {h : Handle} {x : τ × α} (hx : w.get? h = some x) :
    w.unwatch h = (⟨w.slots.set (h.slot - 1) ⟨h.version + 1, none⟩, h.slot :: w.free⟩, true) := by
  simp [unwatch, hx]

private theorem unwatch_of_none {w : Watchers τ α} {h : Handle} (hx : w.get? h = none) : w.unwatch h = (w, false) := by
  simp [unwatch, hx]

namespace Sound

variable {w : Watchers τ α} {issued : List Handle}

/-- A watcher comes into a new slot if all are taken, and else into the one that was freed last. -/
private theorem add_eq (hw : Sound w issued) (t : τ) (a : α) :
    (w.free = [] ∧ w.add t a = (⟨w.slots ++ [⟨1, some (t, a)⟩], []⟩, ⟨w.slots.length + 1, 1⟩)) ∨
    ∃ n v free, w.free = n :: free ∧ w.slot? n = some ⟨v, none⟩ ∧
      w.add t a = (⟨w.slots.set (n - 1) ⟨v + 1, some (t, a)⟩, free⟩, ⟨n, v + 1⟩) := by
  cases hfree : w.free with
  | nil => exact .inl ⟨rfl, by simp [Watchers.add, hfree]⟩
  | cons n free =>
    obtain ⟨v, hs⟩ := (hw.mem_free n).1 (by simp [hfree])
    exact .inr ⟨n, v, free, rfl, hs, by simp [Watchers.add, hfree, hs]⟩

/-- The other slots stay, and the handle is ahead of all that were given out for the slot. -/
private theorem add_cases (hw : Sound w issued) (t : τ) (a : α) :
    ∃ h : Handle, (w.add t a).2 = h ∧ h ∉ issued ∧ (∀ s ∈ w.slot? h.slot, s.watcher = none) ∧
      (∀ m, (w.add t a).1.slot? m = if m = h.slot then some ⟨h.version, some (t, a)⟩ else w.slot? m) ∧
      (w.add t a).1.free = w.free.erase h.slot ∧ ∀ h' ∈ issued, h'.slot = h.slot → h'.version ≤ h.version := by
  rcases hw.add_eq t a with ⟨hfree, hadd⟩ | ⟨n, v, free, hfree, hs, hadd⟩
  · rw [hadd, hfree]
    have hnone := slot?_length_succ w
    have hother : ∀ h' ∈ issued, h'.slot ≠ w.slots.length + 1 := by
      intro h' hh' heq
      obtain ⟨s, hs, -⟩ := hw.behind h' hh'
      rw [heq, hnone] at hs
      cases hs
    refine ⟨⟨w.slots.length + 1, 1⟩, rfl, fun hmem => hother _ hmem rfl, ?_, ?_, rfl, ?_⟩
    · simp [hnone]
    · exact slot?_append w _ _
    · exact fun h' hh' heq => absurd heq (hother h' hh')
  · rw [hadd, hfree]
    -- the slot was free, so it is ahead of its handles already
    have hbehind : ∀ h' ∈ issued, h'.slot = n → h'.version < v := by
      intro h' hh' heq
      obtain ⟨s, hs', -, hlt⟩ := hw.behind h' hh'
      rw [heq, hs] at hs'
      obtain rfl := Option.some.inj hs'
      exact hlt rfl
    refine ⟨⟨n, v + 1⟩, rfl, ?_, ?_, slot?_set hs _ _, by simp, ?_⟩
    · intro hmem
      have := hbehind _ hmem rfl
      dsimp only at this
      omega
    · simp [hs]
    · intro h' hh' heq
      have := hbehind h' hh' heq
      dsimp only
      omega

private theorem size_add (hw : Sound w issued) (t : τ) (a : α) : (w.add t a).1.size = w.size + 1 := by
  rcases hw.add_eq t a with ⟨-, hadd⟩ | ⟨n, v, free, -, hs, hadd⟩
  · rw [hadd]
    simp [size, toList]
  · rw [hadd]
    exact size_set hs _ _

/-- A new slot is made only if all are taken. -/
private theorem length_slots_add (hw : Sound w issued) (t : τ) (a : α) :
    (w.add t a).1.size + (w.add t a).1.free.length = (w.add t a).1.slots.length ∧
      ((w.add t a).1.slots.length = w.slots.length ∨ (w.add t a).1.slots.length = w.size + 1) := by
  have hsize := hw.size_add t a
  have htaken := hw.taken
  rcases hw.add_eq t a with ⟨hfree, hadd⟩ | ⟨n, v, free, hfree, -, hadd⟩
  · rw [hadd] at hsize ⊢
    rw [hfree] at htaken
    simp only [List.length_append, List.length_cons, List.length_nil] at hsize htaken ⊢
    omega
  · rw [hadd] at hsize ⊢
    rw [hfree] at htaken
    refine ⟨?_, .inl List.length_set⟩
    simp only [List.length_set, List.length_cons] at hsize htaken ⊢
    omega

private theorem add (hw : Sound w issued) (hroom : w.size ≠ capacity) (t : τ) (a : α) :
    Sound (w.add t a).1 (issued ++ [(w.add t a).2]) := by
  obtain ⟨h, hhandle, hfresh, -, hslot, hfree, hle⟩ := hw.add_cases t a
  obtain ⟨htaken, hlength⟩ := hw.length_slots_add t a
  rw [hhandle]
  refine ⟨?_, ?_, htaken, ?_, ?_, ?_⟩
  · rw [hfree]
    exact hw.free_nodup.erase _
  · intro n
    rw [hfree, hw.free_nodup.mem_erase_iff, hw.mem_free, hslot]
    by_cases hn : n = h.slot <;> simp [hn]
  · have := hw.taken
    have := hw.within
    omega
  · intro h' hh'
    rw [hslot]
    by_cases heq : h'.slot = h.slot
    · rw [if_pos heq]
      refine ⟨_, rfl, ?_, by simp⟩
      rcases List.mem_append.1 hh' with hold | hnew
      · exact hle h' hold heq
      · exact Nat.le_of_eq (congrArg Handle.version (List.mem_singleton.1 hnew))
    · rw [if_neg heq]
      rcases List.mem_append.1 hh' with hold | hnew
      · exact hw.behind h' hold
      · exact absurd (congrArg Handle.slot (List.mem_singleton.1 hnew)) heq
  · exact List.nodup_append.2 ⟨hw.distinct, List.nodup_singleton h, by
      intro h' hh' b hb heq
      exact hfresh (List.mem_singleton.1 hb ▸ heq ▸ hh')⟩

private theorem watch (hw : Sound w issued) (t : τ) (a : α) :
    Sound (w.watch t a).1 (issued ++ (w.watch t a).2.toList) := by
  by_cases hroom : w.size = capacity
  · rw [watch_of_no_room hroom]
    exact (List.append_nil issued).symm ▸ hw
  · rw [watch_of_room hroom]
    exact hw.add hroom t a

private theorem unwatch (hw : Sound w issued) (h : Handle) : Sound (w.unwatch h).1 issued := by
  cases hx : w.get? h with
  | none =>
    rw [unwatch_of_none hx]
    exact hw
  | some x =>
    rw [unwatch_of_some hx]
    have hs := get?_eq_some_iff.1 hx
    have hslot := slot?_set hs ⟨h.version + 1, none⟩ (h.slot :: w.free)
    refine ⟨?_, ?_, ?_, ?_, ?_, hw.distinct⟩
    · refine List.nodup_cons.2 ⟨fun hmem => ?_, hw.free_nodup⟩
      obtain ⟨v, hv⟩ := (hw.mem_free _).1 hmem
      rw [hs] at hv
      cases hv
    · intro n
      rw [hslot, List.mem_cons, hw.mem_free]
      by_cases hn : n = h.slot <;> simp [hn]
    · have hsize : size ⟨w.slots.set (h.slot - 1) ⟨h.version + 1, none⟩, h.slot :: w.free⟩ + 1 = w.size :=
        size_set hs _ _
      have htaken := hw.taken
      simp only [List.length_set, List.length_cons]
      omega
    · rw [List.length_set]
      exact hw.within
    · intro h' hh'
      rw [hslot]
      by_cases heq : h'.slot = h.slot
      · obtain ⟨s, hs', hle, -⟩ := hw.behind h' hh'
        rw [heq, hs] at hs'
        obtain rfl := Option.some.inj hs'
        rw [if_pos heq]
        exact ⟨_, rfl, Nat.le_succ_of_le hle, fun _ => Nat.lt_succ_of_le hle⟩
      · rw [if_neg heq]
        exact hw.behind h' hh'

/-- A new handle names its watcher.  Every other handle names what it named before. -/
private theorem get?_add (hw : Sound w issued) (t : τ) (a : α) (h : Handle) :
    (w.add t a).1.get? h = if h = (w.add t a).2 then some (t, a) else w.get? h := by
  obtain ⟨new, hhandle, -, hvacant, hslot, -⟩ := hw.add_cases t a
  rw [hhandle]
  by_cases heq : h.slot = new.slot
  · have hs : (w.add t a).1.slot? h.slot = some ⟨new.version, some (t, a)⟩ := by rw [hslot, if_pos heq]
    have hnone : w.get? h = none := get?_of_vacant (by rw [heq]; exact hvacant)
    have hiff : h = new ↔ new.version = h.version := by rw [Handle.eq_iff, and_iff_right heq, eq_comm]
    rw [hnone]
    simp only [get?, hs, hiff]
  · have hne : h ≠ new := fun hh => heq (congrArg Handle.slot hh)
    rw [if_neg hne]
    simp only [get?, hslot, if_neg heq]

private theorem get?_watch (hw : Sound w issued) (t : τ) (a : α) (h : Handle) :
    (w.watch t a).1.get? h = if (w.watch t a).2 = some h then some (t, a) else w.get? h := by
  by_cases hroom : w.size = capacity
  · simp [watch_of_no_room hroom]
  · simp [watch_of_room hroom, hw.get?_add, eq_comm]

/-- A handle that is given out is none of those that were given out before. -/
private theorem fresh_watch (hw : Sound w issued) {t : τ} {a : α} {h : Handle} (hh : (w.watch t a).2 = some h) :
    h ∉ issued := by
  have hdistinct := (hw.watch t a).distinct
  rw [hh] at hdistinct
  exact fun hmem => (List.nodup_append.1 hdistinct).2.2 h hmem h (by simp) rfl

private theorem size_watch (hw : Sound w issued) (t : τ) (a : α) :
    (w.watch t a).1.size = w.size + (w.watch t a).2.toList.length := by
  by_cases hroom : w.size = capacity
  · simp [watch_of_no_room hroom]
  · simp [watch_of_room hroom, hw.size_add]

/-- The slots have numbers below that of the null handle. -/
private theorem slot_lt_null (hw : Sound w issued) {h : Handle} (hh : h ∈ issued) : h.slot < Handle.null.slot := by
  obtain ⟨s, hs, -⟩ := hw.behind h hh
  obtain ⟨front, back, hslots, hn⟩ := slot?_eq_some_iff.1 hs
  have hwithin := hw.within
  simp only [hslots, List.length_append, List.length_cons, capacity] at hwithin
  simp only [Handle.null]
  omega

end Sound

/-- A removal takes the watcher of its handle away, and no other. -/
private theorem get?_unwatch (w : Watchers τ α) (h h' : Handle) :
    (w.unwatch h).1.get? h' = if h' = h then none else w.get? h' := by
  cases hx : w.get? h with
  | none =>
    rw [unwatch_of_none hx]
    by_cases heq : h' = h <;> simp [heq, hx]
  | some x =>
    have hs := get?_eq_some_iff.1 hx
    have hslot : (w.unwatch h).1.slot? h'.slot =
        if h'.slot = h.slot then some ⟨h.version + 1, none⟩ else w.slot? h'.slot := by
      rw [unwatch_of_some hx]
      exact slot?_set hs _ _ _
    by_cases hsame : h'.slot = h.slot
    · rw [if_pos hsame] at hslot
      have hgone : (w.unwatch h).1.get? h' = none := get?_of_vacant (by simp [hslot])
      rw [hgone]
      by_cases heq : h' = h
      · rw [if_pos heq]
      · have hv : h.version ≠ h'.version := fun hv => heq (Handle.eq_iff.2 ⟨hsame, hv.symm⟩)
        simp [get?, hsame, hs, hv, heq]
    · have hne : h' ≠ h := fun hh => hsame (congrArg Handle.slot hh)
      simp only [get?, hslot, if_neg hsame, if_neg hne]

private theorem snd_unwatch (w : Watchers τ α) (h : Handle) : (w.unwatch h).2 = (w.get? h).isSome := by
  cases hx : w.get? h <;> simp [unwatch, hx]

/-! ### Counting and calling -/

private theorem size_unwatch (w : Watchers τ α) (h : Handle) :
    (w.unwatch h).1.size + (w.unwatch h).2.toNat = w.size := by
  cases hx : w.get? h with
  | none => simp [unwatch_of_none hx]
  | some x =>
    rw [unwatch_of_some hx]
    exact size_set (get?_eq_some_iff.1 hx) _ _

/-- The watchers that are there with their handles, in the order of their slots. -/
def entries (w : Watchers τ α) : List (Handle × τ × α) :=
  (w.slots.zipIdx 1).filterMap fun p => p.1.watcher.map fun x => (⟨p.2, p.1.version⟩, x)

private theorem entries_map_snd (w : Watchers τ α) : w.entries.map (·.2) = w.toList := by
  have hslots : (w.slots.zipIdx 1).map (·.1) = w.slots := List.zipIdx_map_fst 1 w.slots
  rw [entries, toList, List.map_filterMap]
  conv_rhs => rw [← hslots, List.filterMap_map]
  congr 1
  funext p
  cases hx : p.1.watcher <;> simp [hx]

private theorem mem_entries {w : Watchers τ α} {h : Handle} {x : τ × α} : (h, x) ∈ w.entries ↔ w.get? h = some x := by
  have hslot : ∀ n s, (s, n) ∈ w.slots.zipIdx 1 ↔ w.slot? n = some s := by
    intro n s
    rw [List.mk_mem_zipIdx_iff_le_and_getElem?_sub, slot?]
    cases n <;> simp
  rw [get?_eq_some_iff, ← hslot, entries, List.mem_filterMap]
  constructor
  · rintro ⟨⟨⟨v, y⟩, n⟩, hmem, hp⟩
    obtain ⟨x', rfl, heq⟩ := Option.map_eq_some_iff.1 hp
    obtain ⟨rfl, rfl⟩ := Prod.mk.inj heq
    exact hmem
  · intro hmem
    exact ⟨_, hmem, rfl⟩

private theorem entries_pairwise (w : Watchers τ α) : w.entries.Pairwise fun p q => p.1.slot < q.1.slot := by
  have hidx : (w.slots.zipIdx 1).Pairwise fun p q => p.2 < q.2 := by
    have hrange : ((w.slots.zipIdx 1).map (·.2)).Pairwise (· < ·) := by
      rw [List.zipIdx_map_snd]
      exact List.pairwise_lt_range'
    exact List.pairwise_map.1 hrange
  rw [entries, List.pairwise_filterMap]
  refine hidx.imp fun hlt p' hp q' hq => ?_
  obtain ⟨x, -, rfl⟩ := Option.map_eq_some_iff.1 hp
  obtain ⟨y, -, rfl⟩ := Option.map_eq_some_iff.1 hq
  exact hlt

private theorem notify_eq [DecidableEq τ] (w : Watchers τ α) (t : τ) (c : κ) :
    w.notify t c = (w.entries.filter fun p => p.2.1 = t).map fun p => (p.2.2, t, c) := by
  rw [notify, labels, ← entries_map_snd, List.filter_map, List.map_map, List.map_map]
  rfl

/-! ### Runs -/

inductive Step (τ α κ : Type)
  | watch (target : τ) (label : α)
  | unwatch (h : Handle)
  | notify (target : τ) (change : κ)

/-- Such a step adds a watcher. -/
def Step.adds : Step τ α κ → Bool
  | .watch _ _ => true
  | _ => false

def step (w : Watchers τ α) : Step τ α κ → Watchers τ α
  | .watch t a => (w.watch t a).1
  | .unwatch h => (w.unwatch h).1
  | .notify _ _ => w

def run (w : Watchers τ α) (steps : List (Step τ α κ)) : Watchers τ α := steps.foldl step w

/-- The handles that a run gives out. -/
def issued (w : Watchers τ α) : List (Step τ α κ) → List Handle
  | [] => []
  | .watch t a :: rest => (w.watch t a).2.toList ++ (w.watch t a).1.issued rest
  | st :: rest => (w.step st).issued rest

/-- How many removals of a run found their watcher. -/
def removals (w : Watchers τ α) : List (Step τ α κ) → Nat
  | [] => 0
  | .unwatch h :: rest => (w.unwatch h).2.toNat + (w.unwatch h).1.removals rest
  | st :: rest => (w.step st).removals rest

/-- A watcher was added under this handle, and no removal of the handle came after it. -/
def Live (steps : List (Step τ α κ)) (h : Handle) (x : τ × α) : Prop :=
  ∃ before after, steps = before ++ .watch x.1 x.2 :: after ∧
    ((empty.run before).watch x.1 x.2).2 = some h ∧ .unwatch h ∉ after

private theorem run_concat (w : Watchers τ α) (steps : List (Step τ α κ)) (st : Step τ α κ) :
    w.run (steps ++ [st]) = (w.run steps).step st := by
  simp [run]

private theorem issued_append (w : Watchers τ α) (steps later : List (Step τ α κ)) :
    w.issued (steps ++ later) = w.issued steps ++ (w.run steps).issued later := by
  induction steps generalizing w with
  | nil => rfl
  | cons st rest ih =>
    cases st with
    | watch t a => exact (congrArg ((w.watch t a).2.toList ++ ·) (ih _)).trans (List.append_assoc _ _ _).symm
    | unwatch h => exact ih _
    | notify t c => exact ih _

private theorem removals_append (w : Watchers τ α) (steps later : List (Step τ α κ)) :
    w.removals (steps ++ later) = w.removals steps + (w.run steps).removals later := by
  induction steps generalizing w with
  | nil => exact (Nat.zero_add _).symm
  | cons st rest ih =>
    cases st with
    | watch t a => exact ih _
    | unwatch h => exact (congrArg ((w.unwatch h).2.toNat + ·) (ih _)).trans (Nat.add_assoc _ _ _).symm
    | notify t c => exact ih _

private theorem live_concat (steps : List (Step τ α κ)) (st : Step τ α κ) (h : Handle) (x : τ × α) :
    Live (steps ++ [st]) h x ↔
      (st = .watch x.1 x.2 ∧ ((empty.run steps).watch x.1 x.2).2 = some h) ∨ (st ≠ .unwatch h ∧ Live steps h x) := by
  constructor
  · rintro ⟨before, after, hsplit, hh, hafter⟩
    rcases List.eq_nil_or_concat' after with rfl | ⟨after, last, rfl⟩
    · obtain ⟨rfl, rfl⟩ := List.append_singleton_inj.1 hsplit
      exact .inl ⟨rfl, hh⟩
    · rw [← List.cons_append, ← List.append_assoc] at hsplit
      obtain ⟨rfl, rfl⟩ := List.append_singleton_inj.1 hsplit
      refine .inr ⟨?_, before, after, rfl, hh, fun hmem => hafter (List.mem_append_left _ hmem)⟩
      rintro rfl
      exact hafter (by simp)
  · rintro (⟨rfl, hh⟩ | ⟨hst, before, after, rfl, hh, hafter⟩)
    · exact ⟨steps, [], rfl, hh, List.not_mem_nil⟩
    · exact ⟨before, after ++ [st], by simp, hh, by simp [hafter, Ne.symm hst]⟩

private theorem sound_run (steps : List (Step τ α κ)) :
    Sound ((empty : Watchers τ α).run steps) (empty.issued steps) := by
  induction steps using List.reverseRecOn with
  | nil => exact Sound.empty
  | append_singleton steps st ih =>
    rw [run_concat, issued_append]
    cases st with
    | watch t a =>
      rw [issued, issued, List.append_nil]
      exact ih.watch t a
    | unwatch h => exact (List.append_nil (empty.issued steps)).symm ▸ ih.unwatch h
    | notify t c => exact (List.append_nil (empty.issued steps)).symm ▸ ih

private theorem mem_issued_of_live {steps : List (Step τ α κ)} {h : Handle} {x : τ × α} (hlive : Live steps h x) :
    h ∈ empty.issued (α := α) steps := by
  obtain ⟨before, after, rfl, hh, -⟩ := hlive
  rw [issued_append, issued, hh]
  exact List.mem_append_right _ List.mem_cons_self

/-- After every run a handle names the watcher that it was given out for, as long as that one was not removed. -/
private theorem get?_run (steps : List (Step τ α κ)) (h : Handle) (x : τ × α) :
    (empty.run steps).get? h = some x ↔ Live steps h x := by
  induction steps using List.reverseRecOn with
  | nil =>
    constructor
    · intro hx
      simp [run, get?, slot?, empty] at hx
    · rintro ⟨before, after, hsplit, -⟩
      simp at hsplit
  | append_singleton steps st ih =>
    have hw := sound_run steps
    rw [run_concat, live_concat, ← ih]
    cases st with
    | watch t a =>
      rw [step, hw.get?_watch]
      by_cases hh : (watch (empty.run steps) t a).2 = some h
      · -- a handle that is given out now named nothing before
        have hnone : (empty.run steps).get? h ≠ some x := fun hx => hw.fresh_watch hh (mem_issued_of_live (ih.1 hx))
        rw [if_pos hh]
        constructor
        · intro hx
          obtain rfl := Option.some.inj hx
          exact .inl ⟨rfl, hh⟩
        · rintro (⟨heq, -⟩ | ⟨-, hx⟩)
          · obtain ⟨rfl, rfl⟩ := Step.watch.inj heq
            rfl
          · exact absurd hx hnone
      · rw [if_neg hh]
        constructor
        · exact fun hx => .inr ⟨by simp, hx⟩
        · rintro (⟨heq, hgiven⟩ | ⟨-, hx⟩)
          · obtain ⟨rfl, rfl⟩ := Step.watch.inj heq
            exact absurd hgiven hh
          · exact hx
    | unwatch h' =>
      rw [step, get?_unwatch]
      by_cases hh : h = h'
      · simp [hh]
      · simp [hh, Ne.symm hh]
    | notify t c => simp [step]

private theorem size_run (steps : List (Step τ α κ)) :
    (empty.run steps).size + (empty : Watchers τ α).removals steps = ((empty : Watchers τ α).issued steps).length := by
  induction steps using List.reverseRecOn with
  | nil => rfl
  | append_singleton steps st ih =>
    have hw := sound_run steps
    rw [run_concat, issued_append, removals_append, List.length_append]
    cases st with
    | watch t a =>
      have hsize := hw.size_watch t a
      simp only [step, removals, issued, List.append_nil]
      omega
    | unwatch h =>
      have hsize := size_unwatch (empty.run steps) h
      simp only [step, removals, issued, List.length_nil]
      omega
    | notify t c =>
      simp only [step, removals, issued, List.length_nil]
      omega

/-- Every watcher that a run adds gets its handle, unless there are more than there can be at a time. -/
private theorem length_issued {steps : List (Step τ α κ)} (hcount : steps.countP Step.adds ≤ capacity) :
    ((empty : Watchers τ α).issued steps).length = steps.countP Step.adds := by
  induction steps using List.reverseRecOn with
  | nil => rfl
  | append_singleton steps st ih =>
    rw [List.countP_append, List.countP_singleton] at hcount ⊢
    have hsteps := ih (by omega)
    rw [issued_append, List.length_append, hsteps]
    cases st with
    | watch t a =>
      have hsize := size_run steps
      have hroom : ((empty : Watchers τ α).run steps).size ≠ capacity := by
        simp only [Step.adds, if_true] at hcount
        omega
      simp [issued, watch_of_room hroom, Step.adds]
    | unwatch h => simp [issued, Step.adds]
    | notify t c => simp [issued, Step.adds]

/-- No run confuses two watchers.  The handles that it gives out are distinct and none is the null handle, each removes
its own watcher once and no other, and a change of a target calls the live watchers of that target once each, in the
order of their slots.  A watcher is refused only if there are as many as there can be, and then nothing changes. -/
theorem handles_name_their_watchers [DecidableEq τ] (steps : List (Step τ α κ)) :
    let w : Watchers τ α := empty.run steps
    let issued := (empty : Watchers τ α).issued steps
    (issued.Nodup ∧ Handle.null ∉ issued) ∧
    (∀ h x, w.get? h = some x ↔ Live steps h x) ∧
    (∀ h, ((w.unwatch h).2 = true ↔ ∃ x, Live steps h x) ∧
      ∀ h', (w.unwatch h).1.get? h' = if h' = h then none else w.get? h') ∧
    (w.size + (empty : Watchers τ α).removals steps = issued.length ∧
      (steps.countP Step.adds ≤ capacity → issued.length = steps.countP Step.adds)) ∧
    (∀ t a, ((w.watch t a).2 = none ↔ w.size = capacity) ∧ (w.size = capacity → (w.watch t a).1 = w)) ∧
    ∀ (t : τ) (c : κ), ∃ called : List (Handle × α),
      w.notify t c = called.map (fun p => (p.2, t, c)) ∧
      called.Pairwise (fun p q => p.1.slot < q.1.slot) ∧
      ∀ h a, (h, a) ∈ called ↔ Live steps h (t, a) := by
  intro w issued
  refine ⟨⟨(sound_run steps).distinct, ?_⟩, get?_run steps, ?_, ⟨size_run steps, length_issued⟩, ?_, ?_⟩
  · intro hnull
    exact absurd ((sound_run steps).slot_lt_null hnull) (Nat.lt_irrefl _)
  · intro h
    refine ⟨?_, get?_unwatch w h⟩
    rw [snd_unwatch, Option.isSome_iff_exists]
    exact exists_congr (get?_run steps h)
  · exact fun t a => ⟨watch_eq_none_iff w t a, fun hroom => congrArg Prod.fst (watch_of_no_room hroom t a)⟩
  · intro t c
    refine ⟨(w.entries.filter fun p => p.2.1 = t).map fun p => (p.1, p.2.2), ?_, ?_, ?_⟩
    · rw [notify_eq, List.map_map]
      rfl
    · exact List.pairwise_map.2 (w.entries_pairwise.filter _)
    · intro h a
      rw [← get?_run, ← mem_entries]
      simp [w]

-- The second watcher is in the slot of the first, whose handle no longer fits.
example :
    let w : Watchers Nat Nat := empty.run (κ := Nat) [.watch 7 0, .unwatch ⟨1, 1⟩, .watch 7 1]
    w.notify 7 5 = [(1, 7, 5)] ∧ (w.unwatch ⟨1, 1⟩).2 = false ∧ (w.unwatch ⟨1, 3⟩).2 = true := by
  decide

end Watchers

end CameraPanel
