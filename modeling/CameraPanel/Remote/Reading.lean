import CameraPanel.Notice

/-!
# Reads in flight

A read is answered at once or later.  A read that is answered later has a ticket, under which its answer is
delivered.  An `Inbox` keeps the reads that somebody asked for, numbered from zero: each waits, has its answer, or is
gone because the answer was taken or nobody wants it any more.
-/

namespace CameraPanel

/-- A started read. -/
inductive Reading (α : Type) where
  | now (answer : α)
  | later (ticket : Nat)
deriving DecidableEq

def Reading.map {α β : Type} (f : α → β) : Reading α → Reading β
  | now a => now (f a)
  | later t => later t

/-- An answer with the ticket that it is for. -/
structure Delivery (α : Type) where
  ticket : Nat
  answer : α
deriving DecidableEq

def Delivery.map {α β : Type} (f : α → β) (d : Delivery α) : Delivery β := ⟨d.ticket, f d.answer⟩

/-- What those who wait hear when the other side goes away. -/
def Delivery.lost {α : Type} (tickets : List Nat) : List (Delivery (Except RemoteError α)) :=
  tickets.map fun ticket => ⟨ticket, .error .disconnected⟩

/-- A read as the one who asked for it sees it. -/
inductive Inbox.Item (α : Type) where
  | waiting (ticket : Nat)
  | ready (answer : α)
  | gone
deriving DecidableEq

/-- The reads that somebody asked for, oldest first. -/
structure Inbox (α : Type) where
  items : List (Inbox.Item α)

namespace Inbox

variable {α : Type}

def empty : Inbox α := ⟨[]⟩

/-- Adds a started read, and gives its number. -/
def add (b : Inbox α) (r : Reading α) : Inbox α × Nat :=
  let item := match r with
    | .now a => .ready a
    | .later t => .waiting t
  (⟨b.items ++ [item]⟩, b.items.length)

/-- An answer reaches the read that waits for its ticket. -/
def Item.deliver (d : Delivery α) : Item α → Item α
  | waiting t => if t = d.ticket then ready d.answer else waiting t
  | item => item

def deliver (b : Inbox α) (d : Delivery α) : Inbox α := ⟨b.items.map (Item.deliver d)⟩

def deliverAll (b : Inbox α) (ds : List (Delivery α)) : Inbox α := ds.foldl deliver b

/-- The state of a read; reads that were never asked for are gone. -/
def get (b : Inbox α) (n : Nat) : Item α := b.items[n]?.getD .gone

/-- Asks for the answer of a read, which takes it away. -/
def poll (b : Inbox α) (n : Nat) : Inbox α × Item α :=
  match b.get n with
  | .ready a => (⟨b.items.set n .gone⟩, .ready a)
  | item => (b, item)

/-- Gives a read up, and tells whether there was still something to give up. -/
def drop (b : Inbox α) (n : Nat) : Inbox α × Bool :=
  match b.get n with
  | .gone => (b, false)
  | _ => (⟨b.items.set n .gone⟩, true)

end Inbox

end CameraPanel
