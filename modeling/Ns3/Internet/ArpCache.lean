import Ns3.Core.Assert
import Ns3.Internet.Ipv4StaticRouting.Basic
import Ns3.Library.OrderedList
import Mathlib.Algebra.Order.Group.Multiset
import Mathlib.Tactic.Abel

/-!
# The ARP cache

An entry of `ArpCache` holds the hardware address of an IPv4 address, or the packets that wait for
it. One timer serves all entries that wait for a reply. Times are in the time steps of the
simulator.
-/

namespace Ns3

namespace ArpCache

/-- `ArpCacheEntryState_e`. -/
inductive State where
  | alive
  | waitReply
  | dead
  | permanent
  | staticAutogenerated
  deriving DecidableEq

/-- `ArpCache::Entry`. -/
structure Entry (α ι : Type) where
  state : State := .alive
  lastSeen : Int := 0
  macAddress : α
  pending : List ι := []
  retries : Nat := 0
  deriving DecidableEq

/-- The attributes of a cache. -/
structure Attributes where
  aliveTimeout : Int
  deadTimeout : Int
  waitReplyTimeout : Int
  maxRetries : Nat
  pendingQueueSize : Nat
  maxRetries_lt : maxRetries < 2 ^ 32

/-- What the cache and the protocol do to others. -/
inductive Output (α ι : Type) where
  | scheduledRequest (destination : Ipv4Address)
  | request (destination : Ipv4Address)
  | reply (destination : Ipv4Address)
  | sent (packet : ι) (hardwareDestination : Option α)
  | dropped (packet : ι)
  | refused
  deriving DecidableEq

end ArpCache

/-- `ArpCache`: the entries in the order of their addresses, and the time of the wait-reply timer
while it is running. -/
structure ArpCache (α ι : Type) where
  entries : List (Ipv4Address × ArpCache.Entry α ι) := []
  waitReplyTimer : Option Int := none
  deriving DecidableEq

namespace ArpCache

variable {α ι : Type} (profile : BuildProfile) (c : Attributes) (now : Int)

/-! ## Entries -/

namespace Entry

/-- `MarkDead`. -/
def markDead (e : Entry α ι) : Option (Entry α ι) := do
  nsAssert profile (e.state = .alive ∨ e.state = .waitReply ∨ e.state = .dead)
  return { e with state := .dead, retries := 0, lastSeen := now }

/-- `MarkAlive`. -/
def markAlive (macAddress : α) (e : Entry α ι) : Option (Entry α ι) := do
  nsAssert profile (e.state = .waitReply)
  return { e with macAddress, state := .alive, retries := 0, lastSeen := now }

/-- `UpdateWaitReply`: `none` for `false`. -/
def updateWaitReply (waiting : ι) (e : Entry α ι) : Option (Option (Entry α ι)) := do
  nsAssert profile (e.state = .waitReply)
  if e.pending.length ≥ c.pendingQueueSize then return none
  else return some { e with pending := e.pending ++ [waiting] }

/-- `MarkWaitReply`, without the start of the timer. -/
def markWaitReply (waiting : ι) (e : Entry α ι) : Option (Entry α ι) := do
  nsAssert profile (e.state = .alive ∨ e.state = .dead)
  nsAssert profile e.pending.isEmpty
  return { e with state := .waitReply, pending := e.pending ++ [waiting], lastSeen := now }

/-- `Time::Max`. -/
def timeMax : Int := 2 ^ 63 - 1

/-- `GetTimeout`. -/
def getTimeout (e : Entry α ι) : Int :=
  match e.state with
  | .waitReply => c.waitReplyTimeout
  | .dead => c.deadTimeout
  | .alive => c.aliveTimeout
  | .permanent => timeMax
  | .staticAutogenerated => timeMax

/-- `IsExpired`. -/
def isExpired (e : Entry α ι) : Bool := now - e.lastSeen > e.getTimeout c

/-- `IncrementRetries`. -/
def incrementRetries (e : Entry α ι) : Entry α ι :=
  { e with retries := UInt32.add e.retries 1, lastSeen := now }

/-- `ClearRetries`. -/
def clearRetries (e : Entry α ι) : Entry α ι := { e with retries := 0 }

end Entry

/-! ## The cache -/

/-- `Lookup`. -/
def lookup (destination : Ipv4Address) (cache : ArpCache α ι) : Option (Entry α ι) :=
  OrderedList.get destination cache.entries

/-- The entry of an address becomes this one. -/
def setEntry (destination : Ipv4Address) (e : Entry α ι) (cache : ArpCache α ι) : ArpCache α ι :=
  { cache with entries := OrderedList.set (fun a b => a < b) destination e cache.entries }

/-- `Simulator::Schedule` of `HandleWaitReplyTimeout`. -/
def scheduleTimeout (cache : ArpCache α ι) : Option (ArpCache α ι) := do
  nsAssert profile (0 ≤ c.waitReplyTimeout)
  return { cache with waitReplyTimer := some (now + c.waitReplyTimeout) }

/-- `StartWaitReplyTimer`. -/
def startWaitReplyTimer (cache : ArpCache α ι) : Option (ArpCache α ι) :=
  if cache.waitReplyTimer.isNone then scheduleTimeout profile c now cache else some cache

/-- The loop of `HandleWaitReplyTimeout`: the entries, what is reported, and whether the timer is
restarted. -/
def timeoutFrom : List (Ipv4Address × Entry α ι) →
    Option (List (Ipv4Address × Entry α ι) × List (Output α ι) × Bool)
  | [] => some ([], [], false)
  | (destination, e) :: rest => do
      if e.state = .waitReply then
        if e.retries < c.maxRetries then
          let (rest, outputs, _) ← timeoutFrom rest
          return ((destination, e.incrementRetries now) :: rest, .request destination :: outputs,
            true)
        else
          let dead := (← e.markDead profile now).clearRetries
          let (rest, outputs, restart) ← timeoutFrom rest
          return ((destination, { dead with pending := [] }) :: rest,
            dead.pending.map Output.dropped ++ outputs, restart)
      else
        let (rest, outputs, restart) ← timeoutFrom rest
        return ((destination, e) :: rest, outputs, restart)

/-- `HandleWaitReplyTimeout`, when the timer has expired. -/
def handleWaitReplyTimeout (cache : ArpCache α ι) :
    Option (ArpCache α ι × List (Output α ι)) := do
  let (entries, outputs, restart) ← timeoutFrom profile c now cache.entries
  let cache := { cache with entries, waitReplyTimer := none }
  if restart then return (← scheduleTimeout profile c now cache, outputs)
  else return (cache, outputs)

/-- The packets that wait for a reply. -/
def pendingPackets (entries : List (Ipv4Address × Entry α ι)) : List ι :=
  entries.flatMap fun x => x.2.pending

/-- `Flush`. -/
def flush (_cache : ArpCache α ι) : ArpCache α ι where
  entries := []
  waitReplyTimer := none

end ArpCache

end Ns3

/-!
## Entries that wait for a reply

The timer was started when an entry began to wait, or when it last expired. Both are no later than
the time at which any waiting entry was last seen, so the timer expires in time for all of them.
-/

namespace Ns3.ArpCache

open OrderedList

variable {α ι : Type} {profile : BuildProfile} {c : Attributes} {now later : Int}
  {timer : Option Int} {n : Nat} {asked : Ipv4Address → Nat} {destination : Ipv4Address}
  {e : Entry α ι} {cache : ArpCache α ι} {outputs : List (Output α ι)}

/-! ## What is counted -/

/-- The requests for an address since its resolution began. -/
def countRequest (destination : Ipv4Address) (n : Nat) : Output α ι → Nat
  | .scheduledRequest d => if d = destination then 1 else n
  | .request d => if d = destination then n + 1 else n
  | _ => n

/-- The requests for all addresses after more outputs. -/
def asks (asked : Ipv4Address → Nat) (outputs : List (Output α ι)) (destination : Ipv4Address) :
    Nat :=
  outputs.foldl (countRequest destination) (asked destination)

/-- The packets that have been sent. -/
def sentPackets (outputs : List (Output α ι)) : List ι :=
  outputs.filterMap fun
    | .sent packet _ => some packet
    | _ => none

/-- The packets that have been reported dropped. -/
def droppedPackets (outputs : List (Output α ι)) : List ι :=
  outputs.filterMap fun
    | .dropped packet => some packet
    | _ => none

theorem asks_cons (o : Output α ι) :
    asks asked (o :: outputs) = asks (asks asked [o]) outputs := rfl

theorem asks_append (first second : List (Output α ι)) :
    asks asked (first ++ second) = asks (asks asked first) second := by
  funext d
  exact List.foldl_append

theorem asks_of_packets
    (packets : ∀ o ∈ outputs, (∃ p, o = .dropped p) ∨ ∃ p d, o = .sent p d) :
    asks asked outputs = asked := by
  induction outputs generalizing asked with
  | nil => rfl
  | cons o rest ih =>
    obtain ⟨here, others⟩ := List.forall_mem_cons.mp packets
    rw [asks_cons, ih others]
    obtain ⟨p, rfl⟩ | ⟨p, d, rfl⟩ := here <;> rfl

theorem asks_dropped (packets : List ι) :
    asks asked (packets.map (Output.dropped (α := α))) = asked := by
  apply asks_of_packets
  intro o mem
  obtain ⟨p, -, rfl⟩ := List.mem_map.mp mem
  exact .inl ⟨p, rfl⟩

/-! ## The invariant -/

/-- An entry that waits has packets, the timer is due in time for it, and it has been asked for
once and at each retry. -/
structure Entry.Valid (c : Attributes) (now : Int) (timer : Option Int) (n : Nat)
    (e : Entry α ι) : Prop where
  pending : e.pending ≠ [] ↔ e.state = .waitReply
  seen : 0 ≤ e.lastSeen ∧ e.lastSeen ≤ now
  watched : e.state = .waitReply → ∃ t ∈ timer, t ≤ e.lastSeen + c.waitReplyTimeout
  asked : e.state = .waitReply → n ≤ 1 + e.retries ∧ e.retries ≤ c.maxRetries
  idle : e.state ≠ .waitReply → e.retries = 0

/-- The invariant of the cache, with the number of requests for each address. -/
structure Valid (c : Attributes) (now : Int) (asked : Ipv4Address → Nat) (cache : ArpCache α ι) :
    Prop where
  ranked : Ranked BitVec.toNat cache.entries
  entry : ∀ x ∈ cache.entries, x.2.Valid c now cache.waitReplyTimer (asked x.1)
  timer : ∀ t ∈ cache.waitReplyTimer, now ≤ t ∧ t ≤ now + c.waitReplyTimeout
  bound : ∀ d, asked d ≤ 1 + c.maxRetries

theorem Entry.Valid.of_idle (valid : e.Valid c now timer n) (idle : e.state ≠ .waitReply)
    (timer' : Option Int) (n' : Nat) : e.Valid c now timer' n' :=
  ⟨valid.pending, valid.seen, fun waits => absurd waits idle, fun waits => absurd waits idle,
    valid.idle⟩

theorem Entry.Valid.pending_eq_nil (valid : e.Valid c now timer n) (idle : e.state ≠ .waitReply) :
    e.pending = [] := by
  by_contra some_
  exact idle (valid.pending.mp some_)

theorem Entry.Valid.start (valid : e.Valid c now none n) (timer' : Option Int) :
    e.Valid c now timer' n := by
  apply valid.of_idle
  intro waits
  obtain ⟨t, running, -⟩ := valid.watched waits
  exact nomatch running

theorem Valid.advance (valid : Valid c now asked cache) (forward : now ≤ later)
    (first : now < later → ∀ t ∈ cache.waitReplyTimer, later ≤ t) :
    Valid c later asked cache := by
  refine ⟨valid.ranked, ?_, ?_, valid.bound⟩
  · intro x mem
    have old := valid.entry x mem
    exact { old with seen := ⟨old.seen.1, old.seen.2.trans forward⟩ }
  · intro t running
    obtain ⟨future, soon⟩ := valid.timer t running
    refine ⟨?_, by omega⟩
    by_cases same : now = later
    · omega
    · exact first (by omega) t running

/-! ## The entry of an address -/

theorem less_iff (a b : Ipv4Address) : decide (a < b) = true ↔ a.toNat < b.toNat := by
  rw [decide_eq_true_eq, BitVec.lt_def]

theorem Valid.of_lookup (valid : Valid c now asked cache)
    (found : cache.lookup destination = some e) :
    e.Valid c now cache.waitReplyTimer (asked destination) :=
  valid.entry _ (valid.ranked.get_eq_some.mp found)

/-- A valid entry is assigned to an address. -/
theorem Valid.setEntry {asked' : Ipv4Address → Nat} (valid : Valid c now asked cache)
    (entry : e.Valid c now cache.waitReplyTimer (asked' destination))
    (bound : asked' destination ≤ 1 + c.maxRetries)
    (others : ∀ d, d ≠ destination → asked' d = asked d) :
    Valid c now asked' (cache.setEntry destination e) := by
  refine ⟨valid.ranked.set less_iff fun _ _ => BitVec.eq_of_toNat_eq, ?_, valid.timer, ?_⟩
  · intro x mem
    obtain rfl | ⟨before, other⟩ :=
      (valid.ranked.mem_set less_iff fun _ _ => BitVec.eq_of_toNat_eq).mp mem
    · exact entry
    · rw [others x.1 other]
      exact valid.entry x before
  · intro d
    by_cases same : d = destination
    · rw [same]
      exact bound
    · rw [others d same]
      exact valid.bound d

theorem lookup_setEntry (destination : Ipv4Address) (e : Entry α ι)
    (ranked : Ranked BitVec.toNat cache.entries) :
    (cache.setEntry destination e).lookup destination = some e := by
  have kept : Ranked BitVec.toNat (cache.setEntry destination e).entries :=
    ranked.set less_iff fun _ _ => BitVec.eq_of_toNat_eq
  refine kept.get_eq_some.mpr ?_
  exact (ranked.mem_set less_iff fun _ _ => BitVec.eq_of_toNat_eq).mpr (.inl rfl)

/-- The packets that wait, after the entry of an address has been assigned. -/
theorem pendingPackets_setEntry (destination : Ipv4Address) (e : Entry α ι)
    (ranked : Ranked BitVec.toNat cache.entries) :
    (pendingPackets (cache.setEntry destination e).entries : Multiset ι) =
      e.pending + pendingPackets (OrderedList.erase destination cache.entries) := by
  have moved : (cache.setEntry destination e).entries.Perm
      ((destination, e) :: OrderedList.erase destination cache.entries) :=
    ranked.set_perm less_iff fun _ _ => BitVec.eq_of_toNat_eq
  have after := moved.flatMap_right fun x => x.2.pending
  exact (Multiset.coe_eq_coe.mpr after).trans (Multiset.coe_add _ _).symm

theorem pendingPackets_of_lookup (found : cache.lookup destination = some e) :
    (pendingPackets cache.entries : Multiset ι) =
      e.pending + pendingPackets (OrderedList.erase destination cache.entries) := by
  have parts := (perm_cons_erase found).flatMap_right fun x => x.2.pending
  exact (Multiset.coe_eq_coe.mpr parts).trans (Multiset.coe_add _ _).symm

theorem pendingPackets_of_absent (absent : cache.lookup destination = none) :
    pendingPackets (OrderedList.erase destination cache.entries) =
      pendingPackets cache.entries := by
  rw [erase_of_absent (get_eq_none.mp absent)]

/-! ## The timer -/

/-- Each packet that is given or has waited is sent, dropped or waits. -/
def Accounts (given : List ι) (before after : List (Ipv4Address × Entry α ι))
    (outputs : List (Output α ι)) : Prop :=
  (given : Multiset ι) + pendingPackets before =
    sentPackets outputs + droppedPackets outputs + pendingPackets after

theorem Accounts.silent (entries : List (Ipv4Address × Entry α ι))
    (sent : sentPackets outputs = []) (dropped : droppedPackets outputs = []) :
    Accounts [] entries entries outputs := by
  unfold Accounts
  rw [sent, dropped, Multiset.coe_nil, zero_add, zero_add, zero_add]

/-- What is done for more packets, added to an account. -/
theorem Accounts.append {given total sent dropped flushed : List ι}
    {before after : List (Ipv4Address × Entry α ι)} (h : Accounts given before after outputs)
    (balance : (total : Multiset ι) = sent + dropped + pendingPackets before + flushed) :
    ((total ++ given : List ι) : Multiset ι) = (sent ++ sentPackets outputs : List ι) +
      (dropped ++ droppedPackets outputs : List ι) + pendingPackets after + flushed := by
  calc (total : Multiset ι) + given
      = sent + dropped + flushed + (given + pendingPackets before) := by
        rw [balance]
        abel
    _ = sent + sentPackets outputs + (dropped + droppedPackets outputs) + pendingPackets after +
          flushed := by
        rw [h]
        abel

theorem Accounts.cons {given : List ι} {before after : List (Ipv4Address × Entry α ι)}
    (h : Accounts given before after outputs) {x y : Ipv4Address × Entry α ι}
    (first : List (Output α ι))
    (balance : (x.2.pending : Multiset ι) =
      sentPackets first + droppedPackets first + y.2.pending) :
    Accounts given (x :: before) (y :: after) (first ++ outputs) := by
  unfold Accounts at h ⊢
  simp only [pendingPackets, sentPackets, droppedPackets, List.flatMap_cons, List.filterMap_append,
    ← Multiset.coe_add] at h balance ⊢
  rw [balance, add_left_comm, h]
  abel

theorem sentPackets_dropped (packets : List ι) :
    sentPackets (packets.map (Output.dropped (α := α))) = [] := by
  rw [sentPackets, List.filterMap_map]
  exact List.filterMap_eq_nil_iff.mpr fun _ _ => rfl

theorem droppedPackets_dropped (packets : List ι) :
    droppedPackets (packets.map (Output.dropped (α := α))) = packets := by
  rw [droppedPackets, List.filterMap_map]
  exact List.filterMap_some

/-- What the loop of `HandleWaitReplyTimeout` leaves. -/
structure Expires (c : Attributes) (now : Int) (asked : Ipv4Address → Nat)
    (before after : List (Ipv4Address × Entry α ι)) (outputs : List (Output α ι))
    (restart : Bool) : Prop where
  keys : after.map Prod.fst = before.map Prod.fst
  entry : ∀ timer, (restart = true → timer = some (now + c.waitReplyTimeout)) → ∀ x ∈ after,
    x.2.Valid c now timer (asks asked outputs x.1)
  bound : ∀ d, asks asked outputs d ≤ 1 + c.maxRetries
  others : ∀ d, (∀ x ∈ before, x.1 ≠ d) → asks asked outputs d = asked d
  accounts : Accounts [] before after outputs

theorem Entry.Valid.incrementRetries (valid : e.Valid c now timer n) (waits : e.state = .waitReply)
    (less : e.retries < c.maxRetries) (present : 0 ≤ now) :
    (e.incrementRetries now).Valid c now (some (now + c.waitReplyTimeout)) (n + 1) := by
  have bound := c.maxRetries_lt
  have next : UInt32.add e.retries 1 = e.retries + 1 := UInt32.add_of_lt (by omega)
  obtain ⟨count, -⟩ := valid.asked waits
  refine ⟨valid.pending, ⟨present, le_rfl⟩, fun _ => ⟨_, rfl, le_rfl⟩, fun _ => ?_,
    fun idle => absurd waits idle⟩
  change n + 1 ≤ 1 + UInt32.add e.retries 1 ∧ UInt32.add e.retries 1 ≤ c.maxRetries
  omega

/-- The timeout of one entry, then of the others. -/
theorem timeoutFrom_spec (profile : BuildProfile) (present : 0 ≤ now)
    {entries : List (Ipv4Address × Entry α ι)} (ranked : Ranked BitVec.toNat entries)
    (valid : ∀ x ∈ entries, x.2.Valid c now timer (asked x.1))
    (bound : ∀ d, asked d ≤ 1 + c.maxRetries) :
    ∃ after outputs restart, timeoutFrom profile c now entries = some (after, outputs, restart) ∧
      Expires c now asked entries after outputs restart := by
  induction entries generalizing asked with
  | nil => exact ⟨[], [], false, rfl, rfl, fun _ _ => nofun, bound, fun _ _ => rfl, rfl⟩
  | cons x rest ih =>
    obtain ⟨destination, e⟩ := x
    obtain ⟨below, ordered⟩ := List.pairwise_cons.mp ranked
    obtain ⟨here, others⟩ := List.forall_mem_cons.mp valid
    have apart : ∀ y ∈ rest, y.1 ≠ destination := by
      rintro y mem rfl
      exact lt_irrefl _ (below y mem)
    by_cases waits : e.state = .waitReply
    · by_cases less : e.retries < c.maxRetries
      · -- The entry is asked for again.
        obtain ⟨count, -⟩ := here.asked waits
        have once : asks asked [Output.request (α := α) (ι := ι) destination] destination =
            asked destination + 1 := if_pos rfl
        have same (d : Ipv4Address) (other : d ≠ destination) :
            asks asked [Output.request (α := α) (ι := ι) destination] d = asked d :=
          if_neg other.symm
        obtain ⟨after, outputs, restart, run, keys, entry, asked', untouched, accounts⟩ :=
          @ih (asks asked [Output.request destination]) ordered
            (fun y mem => by
              rw [same y.1 (apart y mem)]
              exact others y mem)
            (fun d => by
              by_cases equal : d = destination
              · rw [equal, once]
                change asked destination ≤ 1 + e.retries at count
                omega
              · rw [same d equal]
                exact bound d)
        refine ⟨(destination, e.incrementRetries now) :: after, .request destination :: outputs,
          true, ?_, ?_, ?_, asked', ?_, ?_⟩
        · simp [timeoutFrom, waits, less, run]
        · rw [List.map_cons, List.map_cons, keys]
        · intro timer started
          have started := started rfl
          refine List.forall_mem_cons.mpr ⟨?_, entry timer fun _ => started⟩
          rw [asks_cons, started]
          rw [untouched destination apart, once]
          exact here.incrementRetries waits less present
        · intro d absent
          obtain ⟨other, absent⟩ := List.forall_mem_cons.mp absent
          rw [asks_cons, untouched d absent, same d other.symm]
        · apply accounts.cons [.request destination]
          change (e.pending : Multiset ι) = 0 + 0 + e.pending
          rw [zero_add, zero_add]
      · -- The entry becomes dead, and its packets are dropped.
        obtain ⟨after, outputs, restart, run, keys, entry, bound', untouched, accounts⟩ :=
          ih ordered others bound
        have silent : asks asked (e.pending.map (Output.dropped (α := α)) ++ outputs) =
            asks asked outputs := by
          rw [asks_append, asks_dropped]
        refine ⟨(destination, { e with
            state := .dead, retries := 0, lastSeen := now, pending := [] }) :: after,
          e.pending.map Output.dropped ++ outputs, restart, ?_, ?_, ?_, ?_, ?_, ?_⟩
        · simp [timeoutFrom, waits, less, Entry.markDead, run, Entry.clearRetries]
        · rw [List.map_cons, List.map_cons, keys]
        · intro timer started
          rw [silent]
          refine List.forall_mem_cons.mpr ⟨?_, entry timer started⟩
          exact ⟨⟨fun some_ => absurd rfl some_, nofun⟩, ⟨present, le_rfl⟩, nofun, nofun,
            fun _ => rfl⟩
        · rw [silent]
          exact bound'
        · intro d absent
          rw [silent]
          exact untouched d (List.forall_mem_cons.mp absent).2
        · apply accounts.cons (e.pending.map Output.dropped)
          rw [sentPackets_dropped, droppedPackets_dropped]
          change (e.pending : Multiset ι) = 0 + e.pending + 0
          rw [zero_add, add_zero]
    · obtain ⟨after, outputs, restart, run, keys, entry, bound', untouched, accounts⟩ :=
        ih ordered others bound
      refine ⟨(destination, e) :: after, outputs, restart, ?_, ?_, ?_, bound', ?_, ?_⟩
      · simp [timeoutFrom, waits, run]
      · rw [List.map_cons, List.map_cons, keys]
      · intro timer started
        exact List.forall_mem_cons.mpr ⟨here.of_idle waits timer _, entry timer started⟩
      · intro d absent
        exact untouched d (List.forall_mem_cons.mp absent).2
      · apply accounts.cons []
        change (e.pending : Multiset ι) = 0 + 0 + e.pending
        rw [zero_add, zero_add]

/-- The timer is started for an entry that begins to wait. -/
theorem startWaitReplyTimer_spec (profile : BuildProfile) (nonneg : 0 ≤ c.waitReplyTimeout)
    (valid : Valid c now asked cache) :
    ∃ t, (∀ entries : List (Ipv4Address × Entry α ι),
        startWaitReplyTimer profile c now { cache with entries } =
          some { entries, waitReplyTimer := some t }) ∧
      t ≤ now + c.waitReplyTimeout ∧
      Valid c now asked { cache with waitReplyTimer := some t } := by
  cases running : cache.waitReplyTimer with
  | none =>
    refine ⟨now + c.waitReplyTimeout, fun entries => ?_, le_rfl, valid.ranked, ?_, ?_,
      valid.bound⟩
    · simp [startWaitReplyTimer, scheduleTimeout, nonneg]
    · intro x mem
      have stopped := valid.entry x mem
      rw [running] at stopped
      exact stopped.start _
    · rintro t ⟨⟩
      exact ⟨by omega, le_rfl⟩
  | some t =>
    have same : { cache with waitReplyTimer := some t } = cache := by rw [← running]
    refine ⟨t, fun entries => ?_, (valid.timer t running).2, ?_⟩
    · simp [startWaitReplyTimer]
    · rw [same]
      exact valid

/-- The timer expires. -/
theorem handleWaitReplyTimeout_spec (profile : BuildProfile) (nonneg : 0 ≤ c.waitReplyTimeout)
    (present : 0 ≤ now) (valid : Valid c now asked cache) :
    ∃ after outputs, cache.handleWaitReplyTimeout profile c now = some (after, outputs) ∧
      Valid c now (asks asked outputs) after ∧
      Accounts [] cache.entries after.entries outputs := by
  obtain ⟨entries, outputs, restart, run, expires⟩ :=
    timeoutFrom_spec profile present valid.ranked valid.entry valid.bound
  have ranked : Ranked BitVec.toNat entries := by
    have before : (cache.entries.map Prod.fst).Pairwise fun a b => a.toNat < b.toNat :=
      List.pairwise_map.mpr valid.ranked
    rw [← expires.keys, List.pairwise_map] at before
    exact before
  cases restart with
  | true =>
    refine ⟨{ entries, waitReplyTimer := some (now + c.waitReplyTimeout) }, outputs, ?_,
      ⟨ranked, expires.entry _ fun _ => rfl, ?_, expires.bound⟩, expires.accounts⟩
    · simp [handleWaitReplyTimeout, run, scheduleTimeout, nonneg]
    · rintro t ⟨⟩
      exact ⟨by omega, le_rfl⟩
  | false =>
    refine ⟨{ entries, waitReplyTimer := none }, outputs, ?_,
      ⟨ranked, expires.entry _ nofun, nofun, expires.bound⟩, expires.accounts⟩
    simp [handleWaitReplyTimeout, run]

end Ns3.ArpCache
