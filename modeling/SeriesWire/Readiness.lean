/-
Readiness barriers.  A worker that creates a table opens the barrier of that
name, and workers that need the table wait for it.  Barriers are made on first
use and never close again.

A barrier is a flag that one sender raises and any number of receivers see.  The
sender of each name is kept in a table, and a waiter keeps its receiver: once it
subscribed it no longer looks its name up.  Waiting is not atomic: a waiter looks
its barrier up, makes one if it found none, and then polls its receiver, and other
workers can act between these steps.  `Waiter.step` is one of them.
-/

namespace SeriesWire

/-- The barriers made so far.  All handles of the service share them. -/
structure Barriers where
  /-- Whether each barrier is open.  Senders and receivers name it by its number. -/
  flags : List Bool := []
  /-- The sender of each name. -/
  senders : List (String × Nat) := []
  deriving DecidableEq, Repr

namespace Barriers

def lookup (name : String) : List (String × Nat) → Option Nat
  | [] => none
  | (n, barrier) :: rest => if n = name then some barrier else lookup name rest

/-- The barrier of a name, `none` if it was not made yet. -/
def find? (b : Barriers) (name : String) : Option Nat := lookup name b.senders

/-- What a receiver sees. -/
def isOpen (b : Barriers) (barrier : Nat) : Bool := b.flags.getD barrier false

/-- The barrier of a name, made if need be. -/
def obtain (b : Barriers) (name : String) : Barriers × Nat :=
  match b.find? name with
  | some barrier => (b, barrier)
  | none =>
    ({ flags := b.flags ++ [false], senders := b.senders ++ [(name, b.flags.length)] },
      b.flags.length)

def signal (b : Barriers) (name : String) : Barriers :=
  let (b, barrier) := b.obtain name
  { b with flags := b.flags.set barrier true }

def isReady (b : Barriers) (name : String) : Bool := ((b.find? name).map b.isOpen).getD false

end Barriers

/-- How far a waiter has come.  One that subscribed has a receiver. -/
inductive WaitStage
  | looking | missed | subscribed (barrier : Nat) | released
  deriving DecidableEq, Repr

structure Waiter where
  name : String
  stage : WaitStage := .looking
  deriving DecidableEq, Repr

namespace Waiter

def isReleased (w : Waiter) : Bool := w.stage == .released

/-- One step of a waiter, which is atomic. -/
def step (b : Barriers) (w : Waiter) : Barriers × Waiter :=
  match w.stage with
  | .looking =>
    match b.find? w.name with
    | some barrier => (b, { w with stage := .subscribed barrier })
    | none => (b, { w with stage := .missed })
  | .missed =>
    let (b, barrier) := b.obtain w.name
    (b, { w with stage := .subscribed barrier })
  | .subscribed barrier => if b.isOpen barrier then (b, { w with stage := .released }) else (b, w)
  | .released => (b, w)

/-- Run a waiter until it is released or has to wait: three steps lead from the
lookup to the first poll. -/
def poll (b : Barriers) (w : Waiter) : Barriers × Waiter :=
  let (b, w) := w.step b
  let (b, w) := w.step b
  w.step b

def pollAll (b : Barriers) : List Waiter → Barriers × List Waiter
  | [] => (b, [])
  | w :: rest =>
    let (b, w) := w.poll b
    let (b, rest) := pollAll b rest
    (b, w :: rest)

end Waiter
end SeriesWire
