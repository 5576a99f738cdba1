import Ns3.Internet.ArpCache
import Ns3.Internet.ArpL3Protocol.Basic
import Ns3.Library.Run

/-!
# Resolutions end

Between events an address that waits for a reply has packets, and the timer is due in time for it.
A reply, the last timeout and a flush take all of its packets at once. With timeouts that are not
negative no packet comes back while the reply sends them.
-/

namespace Ns3.ArpL3Protocol

open ArpCache OrderedList

variable {α ι : Type} {profile : BuildProfile} {c : Attributes}
  {i : Interface α} {now : Int} {asked : Ipv4Address → Nat} {destination : Ipv4Address}
  {e : Entry α ι} {cache : ArpCache α ι}

/-! ## Between events -/

/-- The requests for an address since its last resolution began. -/
def requests (destination : Ipv4Address) (outputs : List (Output α ι)) : Nat :=
  asks (fun _ => 0) outputs destination

/-- The invariant of a simulation. -/
structure Resolving (c : Attributes) (s : Simulation α ι) : Prop where
  present : 0 ≤ s.now
  inRange : s.now ≤ Entry.timeMax
  valid : Valid c s.now (asks (fun _ => 0) s.outputs) s.cache
  accounts : (s.given : Multiset ι) = sentPackets s.outputs + droppedPackets s.outputs +
    pendingPackets s.cache.entries + s.flushed

/-- The cache at the start: no entry waits. -/
structure Settled (now : Int) (cache : ArpCache α ι) : Prop where
  present : 0 ≤ now ∧ now ≤ Entry.timeMax
  ranked : Ranked BitVec.toNat cache.entries
  idle : ∀ x ∈ cache.entries, x.2.state ≠ .waitReply ∧ x.2.pending = [] ∧ x.2.retries = 0
  seen : ∀ x ∈ cache.entries, 0 ≤ x.2.lastSeen ∧ x.2.lastSeen ≤ now
  stopped : cache.waitReplyTimer = none

/-- The start of a simulation. -/
def start (now : Int) (cache : ArpCache α ι) : Simulation α ι := { now, cache }

theorem Settled.resolving {now : Int} {cache : ArpCache α ι} (h : Settled now cache)
    (c : Attributes) : Resolving c (start now cache) := by
  refine ⟨h.present.1, h.present.2, ⟨h.ranked, ?_, ?_, fun _ => Nat.zero_le _⟩, ?_⟩
  · intro x mem
    obtain ⟨idle, empty, fresh⟩ := h.idle x mem
    exact ⟨⟨fun some_ => absurd empty some_, fun waits => absurd waits idle⟩, h.seen x mem,
      fun waits => absurd waits idle, fun waits => absurd waits idle, fun _ => fresh⟩
  · intro t running
    change t ∈ cache.waitReplyTimer at running
    rw [h.stopped] at running
    exact nomatch running
  · have nothing : pendingPackets cache.entries = [] := by
      apply List.flatMap_eq_nil_iff.mpr
      intro x mem
      exact (h.idle x mem).2.1
    change (0 : Multiset ι) = 0 + 0 + pendingPackets cache.entries + 0
    rw [nothing]
    rfl

/-- What holds between events: an entry has packets exactly when it waits for a reply, the timer is
due in time for it, no resolution sees more requests than the retries allow, and each packet has
been sent, dropped or flushed, or waits. -/
structure Resolved (c : Attributes) (s : Simulation α ι) : Prop where
  pending : ∀ x ∈ s.cache.entries, x.2.pending ≠ [] ↔ x.2.state = .waitReply
  timer : ∀ x ∈ s.cache.entries, x.2.state = .waitReply →
    ∃ t ∈ s.cache.waitReplyTimer, s.now ≤ t ∧ t ≤ x.2.lastSeen + c.waitReplyTimeout
  requests : ∀ destination, requests destination s.outputs ≤ 1 + c.maxRetries
  accounted : s.given.Perm (sentPackets s.outputs ++ droppedPackets s.outputs ++
    pendingPackets s.cache.entries ++ s.flushed)

theorem Resolving.resolved {s : Simulation α ι} (h : Resolving c s) : Resolved c s where
  pending x mem := (h.valid.entry x mem).pending
  timer x mem waits := by
    obtain ⟨t, running, soon⟩ := (h.valid.entry x mem).watched waits
    exact ⟨t, running, (h.valid.timer t running).1, soon⟩
  requests := h.valid.bound
  accounted := by
    rw [← Multiset.coe_eq_coe, h.accounts]
    simp

/-! ## `Lookup` -/

/-- An address begins to wait. -/
theorem waitReply_spec (profile : BuildProfile) (nonneg : 0 ≤ c.waitReplyTimeout)
    (present : 0 ≤ now) (valid : Valid c now asked cache) (packet : ι)
    (ready : e.state = .alive ∨ e.state = .dead) (empty : e.pending = []) (fresh : e.retries = 0)
    (held : (pendingPackets (OrderedList.erase destination cache.entries) : Multiset ι) =
      pendingPackets cache.entries) :
    ∃ after, waitReply profile c now packet destination e cache =
        some (none, after, [.scheduledRequest destination]) ∧
      Valid c now (asks asked [Output.scheduledRequest (α := α) (ι := ι) destination]) after ∧
      Accounts [packet] cache.entries after.entries [.scheduledRequest destination] := by
  obtain ⟨t, starts, soon, started⟩ := startWaitReplyTimer_spec profile nonneg valid
  have once : asks asked [Output.scheduledRequest (α := α) (ι := ι) destination] destination = 1 :=
    if_pos rfl
  have waiting : e.markWaitReply profile now packet =
      some { e with state := .waitReply, pending := [packet], lastSeen := now } := by
    simp [Entry.markWaitReply, ready, empty]
  refine ⟨{ cache with waitReplyTimer := some t }.setEntry destination
    { e with state := .waitReply, pending := [packet], lastSeen := now }, ?_, ?_, ?_⟩
  · simp only [waitReply, waiting, some_bind, pure_some]
    rw [ArpCache.setEntry, starts]
    rfl
  · apply started.setEntry
    · refine ⟨⟨fun _ => rfl, fun _ => List.cons_ne_nil _ _⟩, ⟨present, le_rfl⟩,
        fun _ => ⟨t, rfl, soon⟩, fun _ => ?_, fun idle => absurd rfl idle⟩
      rw [once]
      change 1 ≤ 1 + e.retries ∧ e.retries ≤ c.maxRetries
      omega
    · rw [once]
      omega
    · intro d other
      exact if_neg other.symm
  · have after := pendingPackets_setEntry destination
      { e with state := .waitReply, pending := [packet], lastSeen := now } started.ranked
    change ((([packet] : List ι) : Multiset ι) + _) = 0 + 0 + _
    rw [zero_add, zero_add, ← held]
    exact after.symm

/-- No entry that waits and no permanent one is expired. -/
theorem not_expired (valid : Valid c now asked cache) (inRange : now ≤ Entry.timeMax)
    (found : cache.lookup destination = some e) (expired : e.isExpired c now = true) :
    e.state = .alive ∨ e.state = .dead := by
  have entry := valid.of_lookup found
  obtain ⟨low, high⟩ := entry.seen
  have past := of_decide_eq_true expired
  cases state : e.state with
  | alive => exact .inl rfl
  | dead => exact .inr rfl
  | waitReply =>
    obtain ⟨t, running, soon⟩ := entry.watched state
    have future := (valid.timer t running).1
    simp only [Entry.getTimeout, state] at past
    omega
  | permanent =>
    simp only [Entry.getTimeout, state] at past
    omega
  | staticAutogenerated =>
    simp only [Entry.getTimeout, state] at past
    omega

variable [Inhabited α]

/-- `Lookup` by the interface: the packet is sent, dropped, or waits. -/
theorem resolve_spec (profile : BuildProfile) (nonneg : 0 ≤ c.waitReplyTimeout)
    (present : 0 ≤ now) (inRange : now ≤ Entry.timeMax) (valid : Valid c now asked cache)
    (packet : ι) (destination : Ipv4Address) :
    ∃ after outputs, resolve profile c now packet destination cache = some (after, outputs) ∧
      Valid c now (asks asked outputs) after ∧
      Accounts [packet] cache.entries after.entries outputs := by
  cases found : cache.lookup destination with
  | none =>
    have held := congrArg (fun l : List ι => (l : Multiset ι)) (pendingPackets_of_absent found)
    obtain ⟨after, run, kept, accounts⟩ := waitReply_spec profile nonneg present valid packet
      (e := { macAddress := default }) (.inl rfl) rfl rfl held
    refine ⟨after, _, ?_, kept, accounts⟩
    simp [resolve, lookup, found, run]
  | some e =>
    have entry := valid.of_lookup found
    have parts := pendingPackets_of_lookup found
    cases expired : e.isExpired c now with
    | true =>
      have ready := not_expired valid inRange found expired
      have idle : e.state ≠ .waitReply := by
        intro waits
        rw [waits] at ready
        simp at ready
      have empty := entry.pending_eq_nil idle
      have held : (pendingPackets (OrderedList.erase destination cache.entries) :
          Multiset ι) = pendingPackets cache.entries := by
        rw [parts, empty]
        exact (zero_add _).symm
      obtain ⟨after, run, kept, accounts⟩ := waitReply_spec profile nonneg present valid
        packet ready empty (entry.idle idle) held
      refine ⟨after, _, ?_, kept, accounts⟩
      obtain state | state := ready <;>
        simp [resolve, lookup, found, expired, state, run]
    | false =>
      have sends (known : lookup profile c now packet destination cache =
          some (some e.macAddress, cache, [])) :
          ∃ after outputs, resolve profile c now packet destination cache =
              some (after, outputs) ∧ Valid c now (asks asked outputs) after ∧
            Accounts [packet] cache.entries after.entries outputs := by
        refine ⟨cache, [.sent packet (some e.macAddress)], ?_, valid, ?_⟩
        · simp [resolve, known]
        · change (([packet] : List ι) : Multiset ι) + _ = ([packet] : List ι) + 0 + _
          rw [add_zero]
      have drops (refused : lookup profile c now packet destination cache =
          some (none, cache, [.dropped packet])) :
          ∃ after outputs, resolve profile c now packet destination cache =
              some (after, outputs) ∧ Valid c now (asks asked outputs) after ∧
            Accounts [packet] cache.entries after.entries outputs := by
        refine ⟨cache, [.dropped packet], ?_, valid, ?_⟩
        · simp [resolve, refused]
        · change (([packet] : List ι) : Multiset ι) + _ = 0 + ([packet] : List ι) + _
          rw [zero_add]
      cases state : e.state with
      | alive => exact sends (by simp [lookup, found, expired, state])
      | permanent => exact sends (by simp [lookup, found, expired, state])
      | staticAutogenerated => exact sends (by simp [lookup, found, expired, state])
      | dead => exact drops (by simp [lookup, found, expired, state])
      | waitReply =>
        by_cases full : e.pending.length ≥ c.pendingQueueSize
        · exact drops (by simp [lookup, found, expired, state, Entry.updateWaitReply, full])
        · refine ⟨cache.setEntry destination { e with pending := e.pending ++ [packet] }, [],
            ?_, ?_, ?_⟩
          · simp [resolve, lookup, found, expired, state, Entry.updateWaitReply, full]
          · apply valid.setEntry _ (valid.bound destination) fun _ _ => rfl
            exact ⟨⟨fun _ => state, fun _ => by simp⟩, entry.seen, entry.watched, entry.asked,
              entry.idle⟩
          · have after := pendingPackets_setEntry destination
              { e with pending := e.pending ++ [packet] } valid.ranked
            change (([packet] : List ι) : Multiset ι) + _ = 0 + 0 + _
            rw [zero_add, zero_add, parts, after, ← Multiset.coe_add]
            abel

/-! ## Replies -/

/-- A packet whose destination has just become alive is sent. -/
theorem interfaceSend_alive (profile : BuildProfile) (i : Interface α)
    (nonneg : 0 ≤ c.aliveTimeout) (found : cache.lookup destination = some e)
    (alive : e.state = .alive) (seen : e.lastSeen = now) (packet : ι) :
    ∃ to_, interfaceSend profile c i now packet destination cache =
      some (cache, [.sent packet to_]) := by
  have fresh : e.isExpired c now = false := by
    simp only [Entry.isExpired, Entry.getTimeout, alive, seen, decide_eq_false_iff_not]
    omega
  by_cases direct : i.isDirect destination = true
  · exact ⟨none, by simp [interfaceSend, direct]⟩
  · refine ⟨some e.macAddress, ?_⟩
    simp [interfaceSend, direct, resolve, lookup, found, fresh, alive]

/-- The loop sends all packets that waited. -/
theorem deliver_spec (profile : BuildProfile) (i : Interface α) (nonneg : 0 ≤ c.aliveTimeout)
    {pending : List ι} {rounds : Nat} (ranked : Ranked BitVec.toNat cache.entries)
    (found : cache.lookup destination = some e) (held : e.pending = pending)
    (alive : e.state = .alive) (seen : e.lastSeen = now) (enough : pending.length < rounds) :
    ∃ outputs, deliver profile c i now destination rounds cache =
        some (cache.setEntry destination { e with pending := [] }, outputs) ∧
      sentPackets outputs = pending ∧ ∀ o ∈ outputs, ∃ p d, o = .sent p d := by
  induction pending generalizing cache e rounds with
  | nil =>
    obtain ⟨rounds, rfl⟩ := Nat.exists_eq_succ_of_ne_zero (Nat.ne_zero_of_lt enough)
    have same : cache.setEntry destination { e with pending := [] } = cache := by
      rw [← held, ArpCache.setEntry, ranked.set_get less_iff found]
    refine ⟨[], ?_, rfl, nofun⟩
    simp [deliver, found, held, same]
  | cons packet rest ih =>
    obtain ⟨rounds, rfl⟩ := Nat.exists_eq_succ_of_ne_zero (Nat.ne_zero_of_lt enough)
    have found' := lookup_setEntry destination { e with pending := rest } ranked
    have ranked' : Ranked BitVec.toNat
        (cache.setEntry destination { e with pending := rest }).entries :=
      ranked.set less_iff fun _ _ => BitVec.eq_of_toNat_eq
    obtain ⟨to_, sends⟩ := interfaceSend_alive profile i nonneg found' alive seen packet
    obtain ⟨outputs, run, sent, only⟩ :=
      ih ranked' found' rfl alive seen (Nat.lt_of_succ_lt_succ enough)
    have last : (cache.setEntry destination { e with pending := rest }).setEntry destination
        { e with pending := [] } = cache.setEntry destination { e with pending := [] } := by
      simp only [ArpCache.setEntry, ranked.set_set less_iff]
    rw [last] at run
    refine ⟨.sent packet to_ :: outputs, ?_, ?_, ?_⟩
    · simp [deliver, found, held, sends, run]
    · rw [← sent]
      rfl
    · exact List.forall_mem_cons.mpr ⟨⟨packet, to_, rfl⟩, only⟩

/-- A reply for an address that waits sends all of its packets; any other reply changes nothing. -/
theorem receiveReply_spec (profile : BuildProfile) (i : Interface α)
    (aliveNonneg : 0 ≤ c.aliveTimeout) (present : 0 ≤ now) (valid : Valid c now asked cache)
    (arp : ArpHeader α) :
    ∃ after outputs, receiveReply profile c i now arp cache = some (after, outputs) ∧
      Valid c now (asks asked outputs) after ∧ Accounts [] cache.entries after.entries outputs := by
  have ignored : Accounts ([] : List ι) cache.entries cache.entries
      [Output.refused (α := α)] := .silent _ rfl rfl
  cases found : cache.lookup arp.ipv4Source with
  | none =>
    refine ⟨cache, [.refused], ?_, valid, ignored⟩
    simp only [receiveReply, found]
  | some e =>
    by_cases waits : e.state = .waitReply
    · obtain ⟨alive, becomes⟩ : ∃ alive, alive = { e with
          macAddress := arp.macSource, state := .alive, retries := 0, lastSeen := now } :=
        ⟨_, rfl⟩
      have marked : e.markAlive profile now arp.macSource = some alive := by
        simp [Entry.markAlive, waits, becomes]
      have same : alive.pending = e.pending := by rw [becomes]
      have ranked : Ranked BitVec.toNat (cache.setEntry arp.ipv4Source alive).entries :=
        valid.ranked.set less_iff fun _ _ => BitVec.eq_of_toNat_eq
      have enough : alive.pending.length < alive.pending.length + 2 := by omega
      obtain ⟨outputs, run, sent, only⟩ := deliver_spec profile i aliveNonneg ranked
        (lookup_setEntry _ _ valid.ranked) rfl (by rw [becomes]) (by rw [becomes]) enough
      have last : (cache.setEntry arp.ipv4Source alive).setEntry arp.ipv4Source
          { alive with pending := [] } =
          cache.setEntry arp.ipv4Source { alive with pending := [] } := by
        simp only [ArpCache.setEntry, valid.ranked.set_set less_iff]
      rw [last] at run
      have silent : asks asked outputs = asked := asks_of_packets fun o mem => .inr (only o mem)
      have none_ : droppedPackets outputs = [] := by
        apply List.filterMap_eq_nil_iff.mpr
        intro o mem
        obtain ⟨p, d, rfl⟩ := only o mem
        rfl
      refine ⟨cache.setEntry arp.ipv4Source { alive with pending := [] }, outputs, ?_, ?_, ?_⟩
      · simp [receiveReply, found, waits, marked, run]
      · rw [silent]
        apply valid.setEntry _ (valid.bound _) fun _ _ => rfl
        rw [becomes]
        exact ⟨⟨fun some_ => absurd rfl some_, nofun⟩, ⟨present, le_rfl⟩, nofun, nofun,
          fun _ => rfl⟩
      · have after := pendingPackets_setEntry arp.ipv4Source { alive with pending := [] }
          valid.ranked
        unfold Accounts
        rw [pendingPackets_of_lookup found, after, sent, none_, same]
        change (0 : Multiset ι) + _ = _ + 0 + (0 + _)
        rw [zero_add, zero_add, add_zero]
    · refine ⟨cache, [.refused], ?_, valid, ignored⟩
      simp [receiveReply, found, waits]

variable [DecidableEq α]

/-- `Receive` of any ARP packet. -/
theorem receive_spec (profile : BuildProfile) (i : Interface α)
    (aliveNonneg : 0 ≤ c.aliveTimeout) (present : 0 ≤ now) (valid : Valid c now asked cache)
    (arp : ArpHeader α) (addresses : List Ipv4Address) :
    ∃ after outputs, receive profile c i now arp cache addresses = some (after, outputs) ∧
      Valid c now (asks asked outputs) after ∧ Accounts [] cache.entries after.entries outputs := by
  have unchanged {o : List (Output α ι)} (silent : asks asked o = asked)
      (sent : sentPackets o = []) (dropped : droppedPackets o = []) :
      Valid c now (asks asked o) cache ∧ Accounts [] cache.entries cache.entries o :=
    ⟨silent.symm ▸ valid, .silent _ sent dropped⟩
  induction addresses with
  | nil => exact ⟨cache, [], rfl, unchanged rfl rfl rfl⟩
  | cons address rest ih =>
    by_cases request : arp.isRequest ∧ arp.ipv4Dest = address
    · refine ⟨cache, [.reply arp.ipv4Source], ?_, unchanged rfl rfl rfl⟩
      simp [receive, request]
    · by_cases reply :
          arp.isReply ∧ arp.ipv4Dest = address ∧ arp.macDest = i.deviceAddress
      · obtain ⟨after, outputs, run, kept⟩ :=
          receiveReply_spec profile i aliveNonneg present valid arp
        refine ⟨after, outputs, ?_, kept⟩
        simp only [receive, if_neg request, if_pos reply, run]
      · obtain ⟨after, outputs, run, kept⟩ := ih
        refine ⟨after, outputs, ?_, kept⟩
        simp only [receive, if_neg request, if_neg reply, run]

/-! ## Runs -/

/-- Every event that the simulator can run next returns and keeps the invariant. -/
theorem Resolving.handle_spec (profile : BuildProfile) (i : Interface α)
    (aliveNonneg : 0 ≤ c.aliveTimeout) (waitNonneg : 0 ≤ c.waitReplyTimeout)
    (s : Simulation α ι) (event : Event α ι) (h : Resolving c s) (next : Next s event) :
    ∃ t, handle profile c i s event = some t ∧ Resolving c t := by
  obtain ⟨forward, inRange, first, -⟩ := next
  have present := h.present.trans forward
  have valid := h.valid.advance forward first
  cases event with
  | lookup time packet destination =>
    obtain ⟨after, outputs, run, kept, accounts⟩ :=
      resolve_spec profile waitNonneg present inRange valid packet destination
    refine ⟨{ s with
      now := time, cache := after, given := s.given ++ [packet],
      outputs := s.outputs ++ outputs }, ?_, present, inRange, ?_, ?_⟩
    · change resolve profile c time packet destination s.cache = _ at run
      simp [handle, run]
    · rw [asks_append]
      exact kept
    · have account := accounts.append h.accounts
      simp only [sentPackets, droppedPackets, List.filterMap_append] at account ⊢
      exact account
  | receive time arp =>
    obtain ⟨after, outputs, run, kept, accounts⟩ :=
      receive_spec profile i aliveNonneg present valid arp i.addresses
    refine ⟨{ s with now := time, cache := after, outputs := s.outputs ++ outputs }, ?_,
      present, inRange, ?_, ?_⟩
    · change receive profile c i time arp s.cache i.addresses = _ at run
      simp [handle, run]
    · rw [asks_append]
      exact kept
    · have account := accounts.append h.accounts
      simp only [sentPackets, droppedPackets, List.filterMap_append, List.append_nil] at account ⊢
      exact account
  | timeout time =>
    obtain ⟨after, outputs, run, kept, accounts⟩ :=
      handleWaitReplyTimeout_spec profile waitNonneg present valid
    refine ⟨{ s with now := time, cache := after, outputs := s.outputs ++ outputs }, ?_,
      present, inRange, ?_, ?_⟩
    · change s.cache.handleWaitReplyTimeout profile c time = _ at run
      simp [handle, run]
    · rw [asks_append]
      exact kept
    · have account := accounts.append h.accounts
      simp only [sentPackets, droppedPackets, List.filterMap_append, List.append_nil] at account ⊢
      exact account
  | flush time =>
    refine ⟨_, rfl, present, inRange, ⟨.nil, by simp [flush], by simp [flush], valid.bound⟩, ?_⟩
    rw [h.accounts, ← Multiset.coe_add]
    abel

/-- With timeouts that are not negative every event of a run returns, so no assertion fails and the
fatal branch is not reached, and the resolutions are in order between events. -/
theorem resolution_inOrder (profile : BuildProfile) (c : Attributes) (i : Interface α)
    (aliveNonneg : 0 ≤ c.aliveTimeout) (waitNonneg : 0 ≤ c.waitReplyTimeout) {now : Int}
    {cache : ArpCache α ι} (settled : Settled now cache) (events : List (Event α ι))
    (meets : Run.Meets (handle profile c i) Next (start now cache) events) :
    (∃ s, Run.exec (handle profile c i) (start now cache) events = some s) ∧
      Run.Always (handle profile c i) (Resolved c) (start now cache) events := by
  have begins := settled.resolving c
  have returns := Resolving.handle_spec (ι := ι) profile i aliveNonneg waitNonneg
  constructor
  · obtain ⟨s, run, -⟩ := Run.total begins meets returns
    exact ⟨s, run⟩
  · apply Run.Always.of_invariant begins meets fun s h => h.resolved
    intro s event t h next run
    obtain ⟨t', run', kept⟩ := returns s event h next
    obtain rfl := Option.some.inj (run.symm.trans run')
    exact kept

/-- Two addresses and one timer: the first is answered after a retry, the second becomes dead, and
the packets of a third are flushed. -/
theorem resolution_inOrder_three :
    let c : Attributes := ⟨120, 100, 10, 1, 2, by decide⟩
    let i : Interface Nat := ⟨[1], 7, fun d => d = 1⟩
    (∃ s, Run.exec (handle .debug c i) (start 0 {})
      [.lookup 0 11 2, .lookup 4 12 3, .lookup 5 13 2, .lookup 6 14 2, .timeout 10,
        .receive 12 ⟨2, 9, 7, 2, 1⟩, .lookup 13 15 2, .timeout 20, .lookup 21 16 3,
        .lookup 130 17 3, .lookup 131 18 4, .flush 132] = some s) ∧
      Run.Always (handle .debug c i) (Resolved c) (start 0 {})
        [.lookup 0 11 2, .lookup 4 12 3, .lookup 5 13 2, .lookup 6 14 2, .timeout 10,
          .receive 12 ⟨2, 9, 7, 2, 1⟩, .lookup 13 15 2, .timeout 20, .lookup 21 16 3,
          .lookup 130 17 3, .lookup 131 18 4, .flush 132] := by
  intro c i
  have settled : Settled 0 ({} : ArpCache Nat Nat) := ⟨by decide, .nil, nofun, nofun, rfl⟩
  exact resolution_inOrder .debug c i (by decide) (by decide) settled _ (by decide)

/-- With a negative `AliveTimeout` a packet that a reply sends begins to wait again while another
is still in the queue,
  and with a negative `WaitReplyTimeout` the second packet finds a waiting entry
expired. -/
theorem negativeTimeout_stops :
    (let c : Attributes := ⟨-1, 100, 10, 3, 3, by decide⟩
     let i : Interface Nat := ⟨[1], 7, fun d => d = 1⟩
     let events : List (Event Nat Nat) :=
       [.lookup 0 11 2, .lookup 0 12 2, .receive 1 ⟨2, 9, 7, 2, 1⟩]
     Run.Meets (handle .debug c i) Next (start 0 {}) events ∧
       Run.exec (handle .debug c i) (start 0 {}) events = none) ∧
      let c : Attributes := ⟨120, 100, -1, 3, 3, by decide⟩
      let i : Interface Nat := ⟨[1], 7, fun d => d = 1⟩
      let events : List (Event Nat Nat) := [.lookup 0 11 2, .lookup 0 12 2]
      Run.Meets (handle .optimized c i) Next (start 0 {}) events ∧
        Run.exec (handle .optimized c i) (start 0 {}) events = none := by
  decide

end Ns3.ArpL3Protocol
