import Outfitter.Value

/-!
Locks of sessions.

A call about a session enters by taking the lock of the session, or by joining the queue for it. A call
that leaves hands the lock on to the first in the queue. A session has a lock only while there are users
of it, that is, calls that have entered and not left. Keys that count the same stand for one session.
-/

namespace Outfitter.Assistant

structure Lock where
  /-- The call that has the lock. -/
  holder : Option Nat
  /-- The calls that wait for it, in the order in which they came. -/
  queue : List Nat

namespace Lock

/-- Nobody has the lock. -/
def free : Lock :=
  ⟨none, []⟩

/-- The lock after a call has taken it or joined the queue. -/
def join (l : Lock) (call : Nat) : Lock :=
  if l.holder.isNone && l.queue.isEmpty then ⟨some call, []⟩ else ⟨l.holder, l.queue ++ [call]⟩

/-- The lock after its holder has let go of it. -/
def pass (l : Lock) : Lock :=
  ⟨l.queue.head?, l.queue.tail⟩

/-- The lock after a call has given it up, or its place in the queue. -/
def withdraw (l : Lock) (call : Nat) : Lock :=
  if l.holder = some call then l.pass else { l with queue := l.queue.erase call }

end Lock

structure Locks where
  /-- All locks that were ever made; a lock is known by its place here. -/
  made : List Lock
  /-- The lock of each session that has one. -/
  table : List (Key × Nat)
  /-- The number of users of each lock in the table. -/
  users : List (Key × Nat)

namespace Locks

/-- The use that a call makes of a lock: the key of the session, and the number of the lock. -/
structure Use where
  session : Key
  lock : Nat

/-- No lock was ever made. -/
def none : Locks :=
  ⟨[], [], []⟩

def lock (l : Locks) (n : Nat) : Lock :=
  l.made[n]?.getD Lock.free

/-- The call has this lock. -/
def holds (l : Locks) (n call : Nat) : Bool :=
  (l.lock n).holder == some call

/-- The lock of a session, made if there is none. -/
def lockOf (l : Locks) (session : Key) : Nat × Locks :=
  match l.table.lookup session with
  | some n => (n, l)
  | .none =>
    let n := l.made.length
    (n, { l with made := l.made ++ [Lock.free], table := Keyed.put l.table session n })

/-- The number of users of the lock of a session. -/
def usersOf (l : Locks) (session : Key) : Nat :=
  (l.users.lookup session).getD 0

/-- A call about a session enters; with the locks comes the use that it makes of one. -/
def enter (l : Locks) (session : Key) (call : Nat) : Use × Locks :=
  let session := session.among (l.table.map (·.1))
  let (n, l) := l.lockOf session
  (⟨session, n⟩, { l with
    made := l.made.set n ((l.lock n).join call)
    users := Keyed.put l.users session (l.usersOf session + 1) })

/-- There is one user less; the last one takes the lock off the table. -/
def dropUser (l : Locks) (session : Key) : Locks :=
  if l.usersOf session ≤ 1 then
    { l with
      table := Keyed.without l.table session
      users := Keyed.without l.users session }
  else { l with users := Keyed.put l.users session (l.usersOf session - 1) }

/-- The holder of a lock leaves. -/
def leave (l : Locks) (u : Use) : Locks :=
  { l with made := l.made.set u.lock (l.lock u.lock).pass }.dropUser u.session

/-- A call that waits for a lock leaves. -/
def withdraw (l : Locks) (u : Use) (call : Nat) : Locks :=
  { l with made := l.made.set u.lock ((l.lock u.lock).withdraw call) }.dropUser u.session

end Locks

end Outfitter.Assistant
