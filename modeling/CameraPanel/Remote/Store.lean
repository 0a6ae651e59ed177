import CameraPanel.Remote.Reading

/-!
# The store in memory

The store keeps a value for each field that was written, and a list of all writes.  It answers reads at once until it
is told to defer them; from then on a read waits until it is resolved or failed.  For each field the oldest waiting
read is answered first, and it is answered with the value held at that moment.
-/

namespace CameraPanel

structure Store where
  values : PerField (Option Double)
  /-- The writes so far, oldest first. -/
  writes : List (Field × Double)
  /-- The number of reads so far, which is also the next ticket. -/
  reads : Nat
  deferred : Bool
  /-- The reads that wait, oldest first. -/
  pending : List (Field × Nat)

namespace Store

/-- A store that holds nothing. -/
def empty (deferred : Bool) : Store := ⟨.fill none, [], 0, deferred, []⟩

/-- A store that holds the given offsets. -/
def ofOffsets (offsets : Offsets) (deferred : Bool) : Store := { empty deferred with values := offsets.map some }

/-- The value of a field. -/
def value (s : Store) (k : Field) : Option Double := s.values.get k

/-- Puts a value in without counting it as a write. -/
def insert (s : Store) (k : Field) (v : Double) : Store := { s with values := s.values.set k (some v) }

/-- Reads wait from now on. -/
def defer (s : Store) : Store := { s with deferred := true }

/-- Starts a read. -/
def read (s : Store) (k : Field) : Logged (Store × Reading Answer) := do
  Logged.note (.storeRead k)
  if s.deferred then
    return ({ s with reads := s.reads + 1, pending := s.pending ++ [(k, s.reads)] }, .later s.reads)
  else return ({ s with reads := s.reads + 1 }, .now (.ok (s.value k)))

/-- Writes a value. -/
def write (s : Store) (k : Field) (v : Double) : Logged Store := do
  Logged.note (.storeWrite k v)
  return { s.insert k v with writes := s.writes ++ [(k, v)] }

/-- Gives the writes so far, and forgets them. -/
def takeWrites (s : Store) : Store × List (Field × Double) := ({ s with writes := [] }, s.writes)

/-- The oldest waiting read of a field, and the others. -/
def oldest? (k : Field) : List (Field × Nat) → Option (Nat × List (Field × Nat))
  | [] => none
  | (j, ticket) :: rest =>
    if j = k then some (ticket, rest)
    else (oldest? k rest).map fun (t, others) => (t, (j, ticket) :: others)

/-- Answers the oldest waiting read of a field; nothing is delivered if there is none. -/
def answer (s : Store) (k : Field) (a : Answer) : Store × Option (Delivery Answer) :=
  match oldest? k s.pending with
  | some (ticket, pending) => ({ s with pending }, some ⟨ticket, a⟩)
  | none => (s, none)

/-- Answers the oldest waiting read of a field with the value held now. -/
def resolve (s : Store) (k : Field) : Store × Option (Delivery Answer) := s.answer k (.ok (s.value k))

/-- Answers the oldest waiting read of a field with a failure. -/
def fail (s : Store) (k : Field) (e : RemoteError) : Store × Option (Delivery Answer) := s.answer k (.error e)

/-- Resolves one waiting read for each field of a list. -/
def resolveEach (s : Store) : List Field → Store × List (Delivery Answer)
  | [] => (s, [])
  | k :: rest =>
    let (s, d?) := s.resolve k
    let (s, ds) := resolveEach s rest
    (s, d?.toList ++ ds)

/-- The fields of the waiting reads, oldest first. -/
def pendingFields (s : Store) : List Field := s.pending.map (·.1)

/-- Resolves all waiting reads, oldest first. -/
def resolveAll (s : Store) : Store × List (Delivery Answer) := s.resolveEach s.pendingFields

/-- The tickets of the waiting reads, oldest first. -/
def outstanding (s : Store) : List Nat := s.pending.map (·.2)

end Store

end CameraPanel
