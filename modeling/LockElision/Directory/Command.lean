import LockElision.Directory.Inspect

/-!
# Directory commands

Operations on a directory as data, and what each answers. A command that would record a lock twice
stops there; what it did before stays done.
-/

namespace LockElision

/-- The locks `start`, `start + stride`, …, `count` of them, in 64-bit arithmetic. -/
structure LockRange where
  start : LockId
  count : Nat
  stride : UInt64
  deriving Repr

def LockRange.locks (r : LockRange) : List LockId :=
  (List.range r.count).map fun k => ⟨r.start.raw + UInt64.ofNat k * r.stride⟩

inductive DirectoryCommand where
  | insert (lock : LockId)
  | increment (lock : LockId)
  | decrement (lock : LockId)
  | remove (lock : LockId)
  | lookup (lock : LockId)
  | contains (lock : LockId)
  | origin (lock : LockId)
  | isEmpty
  | hasRoom
  | clear
  | records
  | size
  | capacity
  | inspect
  | usage
  | bucketCount
  | insertRange (range : LockRange)
  | incrementRange (range : LockRange)
  | decrementRange (range : LockRange)
  | removeRange (range : LockRange)
  deriving Repr

inductive DirectoryReply where
  | done
  | inserted
  | full (capacity : Nat)
  | count (n : Option Nat)
  | holding (h : Option Holding)
  | flag (b : Bool)
  | holdings (hs : List Holding)
  | text (s : String)
  | usage (u : Option Usage)
  | origin (o : Option NodeOrigin)
  /-- How many of a range went in, and the capacity that stopped the rest. -/
  | filled (n : Nat) (stopped : Option Nat)
  /-- How many of a range were recorded, how many not, and the sum of their counts. -/
  | swept (found missing sum : Nat)
  | recordedTwice (lock : LockId)
  deriving Repr

/-- The news of a directory without room. -/
def fullText (capacity : Nat) : String :=
  "lock directory full (capacity " ++ toString capacity ++ ")"

/-- The complaint about a lock recorded twice. -/
def LockId.recordedTwice (lock : LockId) : String := lock.label ++ " recorded twice"

namespace Directory

variable {D : Type} [Directory D]

/-- Inserts until a lock is refused; also what was announced on the way. -/
def insertAll (d : D) (inserted : Nat) :
    List LockId → DirectoryReply × D × List Exhaustion
  | [] => (.filled inserted none, d, [])
  | lock :: rest =>
    match insert d lock with
    | .recordedTwice => (.recordedTwice lock, d, [])
    | .full n => (.filled inserted (some n), d, [])
    | .placed d notice =>
      let (reply, d, notices) := insertAll d (inserted + 1) rest
      (reply, d, notice.toList ++ notices)

/-- Applies an operation to each lock, adding up what it answers. -/
def sweep (f : D → LockId → Option (Nat × D)) (d : D) (locks : List LockId) :
    DirectoryReply × D :=
  let (found, missing, sum, d) := locks.foldl (fun (found, missing, sum, d) lock =>
    match f d lock with
    | some (n, d) => (found + 1, missing, sum + n, d)
    | none => (found, missing + 1, sum, d)) (0, 0, 0, d)
  (.swept found missing sum, d)

end Directory

open Directory in
/-- Carries out a command: the answer, the directory after it, and the nodes made meanwhile. -/
def DirectoryCommand.run {D : Type} [Inspectable D] (d : D) :
    DirectoryCommand → DirectoryReply × D × List Exhaustion
  | insert lock =>
    match Directory.insert d lock with
    | .placed d notice => (.inserted, d, notice.toList)
    | .full n => (.full n, d, [])
    | .recordedTwice => (.recordedTwice lock, d, [])
  | increment lock => counted (Directory.increment d lock)
  | decrement lock => counted (Directory.decrement d lock)
  | remove lock =>
    match Directory.remove d lock with
    | some (h, d) => (.holding (some h), d, [])
    | none => (.holding none, d, [])
  | lookup lock => (.holding (find? d lock), d, [])
  | contains lock => (.flag (Directory.contains d lock), d, [])
  | origin lock => (.origin (Inspectable.origin? d lock), d, [])
  | isEmpty => (.flag (Directory.isEmpty d), d, [])
  | hasRoom => (.flag (Directory.hasRoom d), d, [])
  | clear => (.done, Directory.clear d, [])
  | records => (.holdings (Inspectable.listing d), d, [])
  | size => (.count (some (Directory.size d)), d, [])
  | capacity => (.count (Directory.capacity d), d, [])
  | inspect => (.text (Inspectable.inspect d), d, [])
  | usage => (.usage (Inspectable.usage? d), d, [])
  | bucketCount => (.count (Inspectable.bucketCount? d), d, [])
  | insertRange r => insertAll d 0 r.locks
  | incrementRange r => swept (sweep Directory.increment d r.locks)
  | decrementRange r => swept (sweep Directory.decrement d r.locks)
  | removeRange r =>
    swept (sweep (fun d lock => (Directory.remove d lock).map fun (h, d) => (h.depth, d)) d r.locks)
where
  counted : Option (Nat × D) → DirectoryReply × D × List Exhaustion
    | some (n, d') => (.count (some n), d', [])
    | none => (.count none, d, [])
  swept : DirectoryReply × D → DirectoryReply × D × List Exhaustion
    | (reply, d') => (reply, d', [])

end LockElision
