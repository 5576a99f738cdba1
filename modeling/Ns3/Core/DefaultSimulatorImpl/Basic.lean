import Ns3.Core.Assert
import Ns3.Core.Scheduler

/-!
# The simulator

`DefaultSimulatorImpl` gives every event a unique id, keeps the events in a scheduler and
executes them one after the other. While an event runs, the program calls the simulator
again, and other threads may schedule events in the meantime; these wait in a list of their
own until the event returns. So `Run` is cut into steps, with any calls between them.

The program names events by the ids that the simulator returned. Each call that schedules an
event brings an `EventImpl` of its own, and they are numbered.
-/

namespace Ns3

/-- `EventId`; the default one has no implementation. -/
structure EventId where
  impl : Option Nat := none
  ts : Nat := 0
  context : Nat := 0
  uid : Nat := 0
  deriving DecidableEq

/-- `EventWithContext`. -/
structure EventWithContext where
  context : Nat
  timestamp : Nat
  impl : Nat
  deriving DecidableEq

/-- Where the main thread stands: outside `Run`, in its loop, or in an event. -/
inductive RunPhase where
  | outside
  | loop
  | running
  deriving DecidableEq

/-- `DefaultSimulatorImpl` over a scheduler, with the `EventImpl`s that are cancelled. The
lists at the end record what happened: the ids that were returned, the number of `EventImpl`s
so far, the events in the order in which the simulator inserted them, the events that were
taken from the scheduler as the next ones, those of them that were executed, and the
`EventImpl`s that were removed. -/
structure DefaultSimulatorImpl (σ : Type) where
  eventsWithContext : List EventWithContext := []
  eventsWithContextEmpty : Bool := true
  destroyEvents : List EventId := []
  stop : Bool := false
  events : σ
  uid : Nat := 4
  currentUid : Nat := 0
  currentTs : Nat := 0
  currentContext : Nat := 0xffffffff
  eventCount : Nat := 0
  unscheduledEvents : Int := 0
  cancelled : List Nat := []
  phase : RunPhase := .outside
  ids : List EventId := []
  impls : Nat := 0
  inserted : List Event := []
  taken : List Event := []
  executed : List Event := []
  removed : List Nat := []

namespace DefaultSimulatorImpl

variable {σ : Type} (S : Scheduler σ) (profile : BuildProfile)

/-- The key of the next event that is scheduled. -/
def newKey (ts context : Nat) (s : DefaultSimulatorImpl σ) : EventKey := ⟨ts, s.uid, context⟩

/-- An event is given an id and inserted. -/
def insertEvent (impl ts context : Nat) (s : DefaultSimulatorImpl σ) :
    Option (DefaultSimulatorImpl σ) := do
  let events ← S.insert s.events ⟨impl, s.newKey ts context⟩
  return { s with
    events
    uid := UInt32.add s.uid 1
    unscheduledEvents := int32 (s.unscheduledEvents + 1)
    inserted := s.inserted ++ [⟨impl, s.newKey ts context⟩] }

/-- `Schedule`. -/
def schedule (delay : Nat) (s : DefaultSimulatorImpl σ) : Option (DefaultSimulatorImpl σ) := do
  let ts := UInt64.add delay s.currentTs
  let id : EventId := ⟨some s.impls, ts, s.currentContext, s.uid⟩
  let t ← s.insertEvent S s.impls ts s.currentContext
  return { t with ids := s.ids ++ [id], impls := s.impls + 1 }

/-- `ScheduleNow`. -/
def scheduleNow (s : DefaultSimulatorImpl σ) : Option (DefaultSimulatorImpl σ) := s.schedule S 0

/-- `ScheduleWithContext` from the main thread. -/
def scheduleWithContext (context delay : Nat) (s : DefaultSimulatorImpl σ) :
    Option (DefaultSimulatorImpl σ) := do
  let t ← s.insertEvent S s.impls (UInt64.add delay s.currentTs) context
  return { t with impls := s.impls + 1 }

/-- `ScheduleWithContext` from another thread. -/
def inject (context delay : Nat) (s : DefaultSimulatorImpl σ) : DefaultSimulatorImpl σ :=
  { s with
    eventsWithContext := s.eventsWithContext ++ [⟨context, delay, s.impls⟩]
    eventsWithContextEmpty := false
    impls := s.impls + 1 }

/-- The loop of `ProcessEventsWithContext`. -/
def insertAll : List EventWithContext → DefaultSimulatorImpl σ → Option (DefaultSimulatorImpl σ)
  | [], s => some s
  | ev :: waiting, s => do
      insertAll waiting
        (← s.insertEvent S ev.impl (UInt64.add s.currentTs ev.timestamp) ev.context)

/-- `ProcessEventsWithContext`. -/
def processEventsWithContext (s : DefaultSimulatorImpl σ) : Option (DefaultSimulatorImpl σ) :=
  if s.eventsWithContextEmpty then some s
  else insertAll S s.eventsWithContext { s with
    eventsWithContext := [], eventsWithContextEmpty := true }

/-- `IsExpired`. -/
def isExpired (id : EventId) (s : DefaultSimulatorImpl σ) : Bool :=
  match id.impl with
  | none => true
  | some impl =>
    if id.uid = 2 then impl ∈ s.cancelled || id ∉ s.destroyEvents
    else id.ts < s.currentTs || id.ts = s.currentTs && id.uid ≤ s.currentUid ||
      impl ∈ s.cancelled

/-- `Cancel`. -/
def cancel (id : EventId) (s : DefaultSimulatorImpl σ) : DefaultSimulatorImpl σ :=
  match id.impl with
  | none => s
  | some impl => if s.isExpired id then s else { s with cancelled := s.cancelled ++ [impl] }

/-- `Remove`. -/
def remove (id : EventId) (s : DefaultSimulatorImpl σ) : Option (DefaultSimulatorImpl σ) :=
  if id.uid = 2 then some { s with destroyEvents := s.destroyEvents.erase id }
  else
    match id.impl with
    | none => some s
    | some impl =>
      if s.isExpired id then some s
      else do
        let events ← S.remove s.events ⟨impl, id.ts, id.uid, id.context⟩
        return { s with
          events
          cancelled := s.cancelled ++ [impl]
          unscheduledEvents := int32 (s.unscheduledEvents - 1)
          removed := s.removed ++ [impl] }

/-- The loop of `SetScheduler`, with a bound on its rounds. -/
def transfer : Nat → σ → σ → Option σ
  | 0, _, _ => none
  | rounds + 1, old, new =>
    if S.isEmpty old then some new
    else do
      let (next, old) ← S.removeNext old
      transfer rounds old (← S.insert new next)

/-- `SetScheduler`; the factory creates an empty scheduler. -/
def setScheduler (rounds : Nat) (new : σ) (s : DefaultSimulatorImpl σ) :
    Option (DefaultSimulatorImpl σ) := do
  let events ← transfer S rounds s.events new
  return { s with events }

/-- `ProcessOneEvent`, up to `Notify`. -/
def processOneEvent (s : DefaultSimulatorImpl σ) : Option (DefaultSimulatorImpl σ) := do
  let (next, events) ← S.removeNext s.events
  nsAssert profile (s.currentTs ≤ next.key.ts)
  return { s with
    events
    unscheduledEvents := int32 (s.unscheduledEvents - 1)
    eventCount := UInt64.add s.eventCount 1
    currentTs := next.key.ts
    currentContext := next.key.context
    currentUid := next.key.uid
    phase := .running
    taken := s.taken ++ [next]
    executed := if next.impl ∈ s.cancelled then s.executed else s.executed ++ [next] }

/-- The loop of `Run`: the next event, or the end with its assertion. -/
def next (s : DefaultSimulatorImpl σ) : Option (DefaultSimulatorImpl σ) := do
  if !S.isEmpty s.events && !s.stop then s.processOneEvent S profile
  else
    nsAssert profile (!S.isEmpty s.events || s.unscheduledEvents = 0)
    return { s with phase := .outside }

/-- The start of `Run`. -/
def begin_ (s : DefaultSimulatorImpl σ) : Option (DefaultSimulatorImpl σ) := do
  let s ← s.processEventsWithContext S
  return { s with stop := false, phase := .loop }

/-- The event returns. -/
def finish (s : DefaultSimulatorImpl σ) : Option (DefaultSimulatorImpl σ) := do
  let s ← s.processEventsWithContext S
  return { s with phase := .loop }

/-- What the program, other threads and `Run` do next. Ids are named by their place among
those that were returned. -/
inductive SimulatorCall (σ : Type) where
  | schedule (delay : Nat)
  | scheduleNow
  | scheduleWithContext (context delay : Nat)
  | inject (context delay : Nat)
  | cancel (i : Nat)
  | remove (i : Nat)
  | setScheduler (rounds : Nat) (new : σ)
  | stop
  | run
  | next
  | finish

/-- One step. A step of `Run` that does not come next changes nothing. -/
def step (s : DefaultSimulatorImpl σ) : SimulatorCall σ → Option (DefaultSimulatorImpl σ)
  | .schedule delay => s.schedule S delay
  | .scheduleNow => s.scheduleNow S
  | .scheduleWithContext context delay => s.scheduleWithContext S context delay
  | .inject context delay => some (s.inject context delay)
  | .cancel i => some (s.cancel (s.ids.getD i {}))
  | .remove i => s.remove S (s.ids.getD i {})
  | .setScheduler rounds new => s.setScheduler S rounds new
  | .stop => some { s with stop := true }
  | .run => if s.phase = .outside then s.begin_ S else some s
  | .next => if s.phase = .loop then s.next S profile else some s
  | .finish => if s.phase = .running then s.finish S else some s

end DefaultSimulatorImpl

end Ns3
