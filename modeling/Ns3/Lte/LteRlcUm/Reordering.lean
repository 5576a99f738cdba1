import Ns3.Lte.LteRlcUm.Variables

/-!
# PDUs out of order

A receiver delivers some of the SDUs that were sent, in their order, whatever PDUs are lost, come
twice or overtake others within half the space, if no PDU moves the window past the wrap of the
numbers away from PDUs that are still held.
-/

namespace Ns3

open Frames SequenceNumber10 List

namespace LteRlcUm

variable {α : Type} {S : Stream α} {s t : LteRlcUmRx α} {low high p : Nat}

/-! ## One call -/

/-- The state between two calls. -/
structure Between (S : Stream α) (low high : Nat) (s : LteRlcUmRx α) : Prop where
  keeps : Keeps S low high high s
  vrUr : s.vrUr.value = low % 1024
  vrUh : s.vrUh.value = high % 1024
  timer : s.reorderingTimer = true → s.vrUr = at_ high low ∧ s.vrUh = at_ high high ∧
    ∃ x, s.vrUx = at_ high x ∧ low < x ∧ x ≤ high

theorem between_start (block : high % 1024 = 0) : Between S high high ({} : LteRlcUmRx α) where
  keeps := by
    refine ⟨List.Pairwise.nil, forall_mem_nil _, le_rfl, le_rfl,
      Nat.le_add_right _ _,
      Nat.le_add_right _ _, high, none,
        ⟨rfl, fun _ same => absurd same (Option.some_ne_none _).symm, rfl,
        block.symm⟩, Stream.received_zero.skip (Nat.zero_le high), le_rfl, .inl rfl⟩
  vrUr := block.symm
  vrUh := block.symm
  timer running := absurd running Bool.false_ne_true

theorem Keeps.updateTimer (h : Keeps S low high high s) (vrUr : s.vrUr.value = low % 1024)
    (vrUh : s.vrUh.value = high % 1024) (timer : s.reorderingTimer = true →
      ∃ x, s.vrUx.value = x % 1024 ∧ x ≤ high ∧ high < x + 1024) :
    Between S low high (updateTimer s) := by
  obtain ⟨v, same, missing⟩ := updateTimer_spec vrUr vrUh h.low_le h.mid_near timer
  rw [same]
  exact ⟨h.variables _ _ _ _, rfl, rfl,
    fun running => ⟨rfl, rfl, missing (of_decide_eq_true running)⟩⟩

/-- A PDU is put into the map. -/
theorem Keeps.stores (h : Keeps S low high high s) (fits : Fits (S.frame p)) (from_ : low ≤ p)
    (near : p < high + 512) :
    Keeps S low high (max high (p + 1)) { s with
      rxBuffer := store (p % 1024) (pduOf p (S.frame p)) s.rxBuffer } ∧
    entry S p ∈ store (p % 1024) (pduOf p (S.frame p)) s.rxBuffer := by
  have low_le := h.low_le
  have mid_near := h.mid_near
  have mem_store {e : Nat × RlcPdu α} : e ∈ store (p % 1024) (pduOf p (S.frame p)) s.rxBuffer ↔
      e = entry S p ∨ e ∈ s.rxBuffer ∧ e.1 ≠ p % 1024 :=
    h.ranked.mem_set (fun _ _ => decide_eq_true_iff) fun _ _ => id
  -- a PDU that has been received before is replaced by itself
  have stays {q : Nat} (from_q : low ≤ q) (before : q < high) (mem : entry S q ∈ s.rxBuffer) :
      entry S q ∈ store (p % 1024) (pduOf p (S.frame p)) s.rxBuffer := by
    by_cases same : q % 1024 = p % 1024
    · obtain rfl : q = p := by omega
      exact mem_store.mpr (.inl rfl)
    · exact mem_store.mpr (.inr ⟨mem, same⟩)
  refine ⟨⟨h.ranked.set (fun _ _ => decide_eq_true_iff) fun _ _ => id, fun e mem => ?_, low_le,
    le_max_left _ _, mid_near, by omega, ?_⟩, mem_store.mpr (.inl rfl)⟩
  · obtain rfl | ⟨mem, -⟩ := mem_store.mp mem
    · exact ⟨p, from_, by omega, fits, rfl⟩
    · obtain ⟨q, from_q, before, rest⟩ := h.held e mem
      exact ⟨q, from_q, .inl (by omega), rest⟩
  · obtain ⟨expected, kept, expects, received, expected_le, recent⟩ := h.carries
    refine ⟨expected, kept, ⟨expects.state, expects.s0, expects.empty, expects.number⟩, received,
      expected_le, recent.imp id ?_⟩
    rintro ⟨last, q, from_q, before, mem, close⟩
    exact ⟨stays (by omega) (by omega) last, q, from_q, before, stays from_q before mem, close⟩

/-- The PDU, if it moves the window, comes behind all PDUs that fall out of it in the order of the
map. -/
def MovesInOrder (s : LteRlcUmRx α) (sn : SequenceNumber10) : Prop :=
  isInsideReorderingWindow s.vrUh sn = false →
    ∀ e ∈ s.rxBuffer, isInsideReorderingWindow (sn.add 1) (.ofNat e.1) = false → e.1 < sn.value
  deriving Decidable

/-- `DoReceivePdu` of a PDU within half the space of the highest. -/
theorem Between.receive (h : Between S low high s) (fits : Fits (S.frame p))
    (lowest : high ≤ p + 512)
    (near : p < high + 512) (inOrder : MovesInOrder s (.ofNat p)) :
    ∃ t low', doReceivePdu (pduOf p (S.frame p)) s = some t ∧
      Between S low' (max high (p + 1)) t := by
  have low_le := h.keeps.low_le
  have mid_near := h.keeps.mid_near
  have discarded : Between S low high { s with vrUr := at_ high low, vrUh := at_ high high } :=
    ⟨h.keeps.variables _ _ _ _, rfl, rfl, fun running => ⟨rfl, rfl, (h.timer running).2.2⟩⟩
  have opened := doReceivePdu_opened (peekHeader_pduOf fits p) h.vrUr h.vrUh rfl low_le mid_near
    lowest near
  rw [opened]
  by_cases before : p < low
  · rw [decide_eq_true before, Bool.or_true, if_pos rfl, max_eq_left (by omega)]
    exact ⟨_, low, rfl, discarded⟩
  obtain ⟨kept, newest⟩ := h.keeps.stores fits (not_lt.mp before) near
  let m : LteRlcUmRx α := { s with
    rxBuffer := store (p % 1024) (pduOf p (S.frame p)) s.rxBuffer
    vrUr := at_ high low, vrUh := at_ high high }
  have keptM : Keeps S low high (max high (p + 1)) m := kept.variables _ _ _ _
  have timer : s.reorderingTimer = true → ∃ x, s.vrUx.value = x % 1024 ∧ x ≤ max high (p + 1) ∧
      max high (p + 1) < x + 1024 := by
    intro running
    obtain ⟨-, -, x, vrUx, after, le⟩ := h.timer running
    exact ⟨x, congrArg SequenceNumber10.value vrUx, by omega, by omega⟩
  by_cases within : p < high
  · rw [max_eq_left (by omega)] at keptM timer ⊢
    obtain ⟨t, low', returns, kept', -, vrUr, vrUx, vrUh, running⟩ :=
      keptM.deliverFrom rfl mid_near fun _ => by omega
    by_cases again :
      (decide (low < p) && decide (p < high) && (find (p % 1024) s.rxBuffer).isSome) = true
    · rw [again, Bool.true_or, if_pos rfl]
      exact ⟨_, low, rfl, discarded⟩
    · rw [Bool.eq_false_of_not_eq_true again, decide_eq_false before, Bool.or_self,
        if_neg Bool.false_ne_true]
      simp only [within, if_true, Option.bind_some]
      rw [show deliverFromVrUr _ = some t from returns]
      refine ⟨updateTimer t, low', rfl, kept'.updateTimer vrUr
        (by rw [vrUh]; rfl) fun running' => ?_⟩
      rw [vrUx]
      exact timer (running.symm.trans running')
  · rw [max_eq_right (by omega)] at keptM timer ⊢
    have later : high ≤ p := not_lt.mp within
    have outside : isInsideReorderingWindow s.vrUh (.ofNat p) = false := by
      rw [isInside_iff h.vrUh rfl (by omega) near]
      exact decide_eq_false fun both => within both.2
    have ordered : ∀ q, low ≤ q → entry S q ∈ m.rxBuffer → q + 512 < p + 1 →
        q % 1024 < p % 1024 := by
      intro q from_ mem out
      obtain same | ⟨mem, -⟩ :=
        (h.keeps.ranked.mem_set (fun _ _ => decide_eq_true_iff) fun _ _ => id).mp mem
      · have number : q % 1024 = p % 1024 := congrArg Prod.fst same
        omega
      · refine inOrder outside _ mem ?_
        have value : ((SequenceNumber10.ofNat p).add 1).value = (p + 1) % 1024 := by
          simp only [SequenceNumber10.ofNat, SequenceNumber10.add]
          omega
        rw [isInside_iff value (Nat.mod_mod q 1024) (by omega) (by omega)]
        exact decide_eq_false fun both => by omega
    obtain ⟨t, base', low', moves, -, kept', vrUr, lowest', highest', vrUh, vrUx, running⟩ :=
      keptM.move rfl newest later near ordered
    obtain ⟨u, low'', returns, kept'', -, vrUr', vrUx', vrUh', running'⟩ :=
      kept'.deliverFrom vrUr lowest' highest'
    have notWithin : decide (p < high) = false := decide_eq_false within
    rw [notWithin, Bool.and_false, Bool.false_and, decide_eq_false before, Bool.or_self,
      if_neg Bool.false_ne_true]
    simp only [within, if_false]
    rw [show moveWindow (at_ high p) _ = some t from moves, Option.bind_some, returns]
    refine ⟨updateTimer u, low'', rfl, kept''.updateTimer vrUr'
      (by rw [vrUh', vrUh]; rfl) fun runs => ?_⟩
    rw [vrUx', vrUx]
    exact timer (running.symm.trans (running'.symm.trans runs))

/-- `ExpireReorderingTimer`. -/
theorem Between.expire (h : Between S low high s) (running : s.reorderingTimer = true) :
    ∃ t low', expireReorderingTimer s = some t ∧ Between S low' high t := by
  obtain ⟨vrUr, vrUh, x, vrUx, after, le⟩ := h.timer running
  have mid_near := h.keeps.mid_near
  obtain ⟨q, missing, le_q, q_le⟩ :=
    @Keeps.nextMissingFrom α S s low high x h.keeps high 1025 (by omega) le (by omega)
  obtain ⟨t, returns, same, kept⟩ :=
    @Keeps.interval α S _ low high high q
      (h.keeps.variables (at_ high q) s.vrUx s.vrUh s.reorderingTimer)
      high 1025 (by omega) q_le (by omega) mid_near (by omega)
  have above : (at_ high high).gt (at_ high q) = decide (q < high) :=
    gt_at (by omega) (by omega) (by omega) (by omega)
  have vrUrT : t.vrUr = at_ high q := same.vrUr
  have vrUhT : t.vrUh = at_ high high := same.vrUh.trans vrUh
  have called : expireReorderingTimer s =
      if q < high then some { t with reorderingTimer := true, vrUx := at_ high high }
      else some { t with reorderingTimer := false } := by
    rw [vrUx] at returns
    rw [expireReorderingTimer, vrUx, missing]
    simp only [some_bind, reassembleSnInterval, vrUr]
    rw [show reassembleSnLoop 1025 (at_ high low) (at_ high q) _ = some t from returns]
    simp [vrUhT, vrUrT, above]
  rw [called]
  split
  case isTrue before =>
    refine ⟨_, q, rfl, kept.variables t.vrUr (at_ high high) t.vrUh true,
      congrArg SequenceNumber10.value vrUrT, congrArg SequenceNumber10.value vrUhT, fun _ => ?_⟩
    exact ⟨vrUrT, vrUhT, high, rfl, before, Nat.le_refl high⟩
  case isFalse =>
    exact ⟨_, q, rfl, kept.variables t.vrUr t.vrUx t.vrUh false,
      congrArg SequenceNumber10.value vrUrT, congrArg SequenceNumber10.value vrUhT,
      fun runs => absurd runs Bool.false_ne_true⟩

/-! ## Runs -/

/-- The `i`th PDU of a sender arrives, or the timer expires, if it runs. -/
inductive Arrival where
  | receive (i : Nat)
  | expire
  deriving DecidableEq

/-- A receiver, with the newest PDU that has arrived. -/
structure Reception (α : Type) where
  rx : LteRlcUmRx α := {}
  newest : Option Nat := none

def Reception.step (sent : List (RlcPdu α)) (r : Reception α) : Arrival → Option (Reception α)
  | .receive i => do
      let p ← sent[i]?
      let rx ← doReceivePdu p r.rx
      return { rx, newest := some (max i (r.newest.getD i)) }
  | .expire =>
    if r.rx.reorderingTimer then (expireReorderingTimer r.rx).map ({ r with rx := · }) else some r

/-- A PDU that has been sent, less than half the space away from the newest one. -/
def Reception.Near (sent : List (RlcPdu α)) (r : Reception α) : Arrival → Prop
  | .receive i => i < sent.length ∧ ∀ m ∈ r.newest, i < m + 512 ∧ m < i + 512
  | .expire => True

/-- The numbers begin in the lower half, and the window moves in their order. -/
def Reception.InOrder (r : Reception α) : Arrival → Prop
  | .receive i => (r.newest = none → i % 1024 < 512) ∧ MovesInOrder r.rx (.ofNat i)
  | .expire => True

instance (sent : List (RlcPdu α)) (r : Reception α) (a : Arrival) : Decidable (r.Near sent a) :=
  match a with
  | .receive _ => instDecidableAnd
  | .expire => isTrue trivial

instance (r : Reception α) (a : Arrival) : Decidable (r.InOrder a) :=
  match a with
  | .receive _ => instDecidableAnd
  | .expire => isTrue trivial

/-- What a receiver of the frames `fs` keeps to. -/
def Arrived (fs : List (Frame α)) (S : Stream α) (r : Reception α) : Prop :=
  match r.newest with
  | none => r.rx = {}
  | some m => m < fs.length ∧ ∃ low, Between S low (m + 1) r.rx

/-- A PDU arrives in a state between two calls. -/
theorem Between.step {fs : List (Frame α)} {linked : Linked fs} (fits : ∀ f ∈ fs, Fits f)
    {r : Reception α} {i : Nat} (h : Between (Stream.ofList fs linked) low high r.rx)
    (sent : i < fs.length) (lowest : high ≤ i + 512) (near : i < high + 512)
    (inOrder : MovesInOrder r.rx (.ofNat i)) :
    ∃ t, r.step (fs.mapIdx pduOf) (.receive i) = some t ∧
      t.newest = some (max i (r.newest.getD i)) ∧
      ∃ low', Between (Stream.ofList fs linked) low' (max high (i + 1)) t.rx := by
  have there : fs[i]? = some fs[i] := getElem?_eq_getElem sent
  have frame := Stream.ofList_frame linked there
  obtain ⟨rx, low', returns, between⟩ :=
    h.receive (p := i) (by rw [frame]; exact fits _ (getElem_mem sent)) lowest near inOrder
  rw [frame] at returns
  refine ⟨{ rx, newest := some (max i (r.newest.getD i)) }, ?_, rfl, low', between⟩
  rw [Reception.step, getElem?_mapIdx, there]
  simp [returns]

theorem Arrived.step {fs : List (Frame α)} {linked : Linked fs} (fits : ∀ f ∈ fs, Fits f)
    {r : Reception α} {a : Arrival} (h : Arrived fs (Stream.ofList fs linked) r)
    (near : r.Near (fs.mapIdx pduOf) a) (inOrder : r.InOrder a) :
    ∃ t, r.step (fs.mapIdx pduOf) a = some t ∧ Arrived fs (Stream.ofList fs linked) t := by
  obtain ⟨rx, newest⟩ := r
  cases a with
  | receive i =>
    obtain ⟨sent, close⟩ := near
    rw [length_mapIdx] at sent
    obtain ⟨first, moves⟩ := inOrder
    cases newest with
    | none =>
      obtain rfl : rx = {} := h
      have half := first rfl
      -- the receiver counts from the multiple of 1024 below the PDU
      have start : Between (Stream.ofList fs linked) (i - i % 1024) (i - i % 1024)
          ({} : LteRlcUmRx α) := between_start (by omega)
      obtain ⟨t, returns, newest, low', between⟩ :=
        Between.step (r := {}) fits start sent (by omega) (by omega) moves
      refine ⟨t, returns, ?_⟩
      rw [Arrived, newest]
      rw [max_eq_right (by omega)] at between
      exact ⟨by simpa using sent, low', by simpa using between⟩
    | some m =>
      obtain ⟨before, low, between⟩ := h
      obtain ⟨above, below⟩ := close m rfl
      obtain ⟨t, returns, newest, low', between'⟩ :=
        Between.step (r := ⟨rx, some m⟩) fits between sent (by omega) (by omega) moves
      refine ⟨t, returns, ?_⟩
      rw [Arrived, newest]
      refine ⟨max_lt sent before, low', ?_⟩
      rw [Option.getD_some, ← Nat.add_max_add_right, max_comm]
      exact between'
  | expire =>
    cases newest with
    | none =>
      obtain rfl : rx = {} := h
      exact ⟨{}, rfl, rfl⟩
    | some m =>
      obtain ⟨before, low, between⟩ := h
      by_cases running : rx.reorderingTimer = true
      · obtain ⟨t, low', returns, between'⟩ := between.expire running
        refine ⟨⟨t, some m⟩, ?_, before, low', between'⟩
        simp [Reception.step, running, returns]
      · refine ⟨⟨rx, some m⟩, ?_, before, low, between⟩
        simp [Reception.step, running]

/-- What has been delivered are SDUs that have been sent, in their order. -/
theorem Arrived.sublist {fs : List (Frame α)} {linked : Linked fs} {r : Reception α}
    (h : Arrived fs (Stream.ofList fs linked) r) : r.rx.received.Sublist (endedBy fs) := by
  obtain ⟨rx, newest⟩ := r
  cases newest with
  | none =>
    obtain rfl : rx = {} := h
    exact nil_sublist _
  | some m =>
    obtain ⟨before, low, between⟩ := h
    obtain ⟨expected, kept, -, received, expected_le, -⟩ := between.keeps.carries
    have low_le := between.keeps.low_le
    have le : expected ≤ fs.length := by omega
    have ended := Stream.endedBefore_prefix (Stream.ofList fs linked) le
    rw [Stream.ofList_endedBefore linked le_rfl, take_length] at ended
    exact received.sublist.trans ended.sublist

/-- A run of a sender sends frames. -/
theorem sends_exec {maxTxBufferSize : Nat} {demands : List (Demand α)} {sender : Sender α}
    (some_ : ∀ d ∈ demands, d ≠ .transmit [])
    (run : Run.exec Sender.step { tx := { maxTxBufferSize } } demands = some sender) :
    ∃ fs, Sends fs sender := by
  refine Run.invariant (I := fun s => ∃ fs, Sends fs s) ⟨[], sends_start maxTxBufferSize⟩
    (Run.Meets.of_calls some_ _) ?_ run
  rintro s d t ⟨fs, sends⟩ ne step
  cases d with
  | transmit p =>
    obtain ⟨t', step', sends'⟩ := sends.transmit fun empty => ne (empty ▸ rfl)
    obtain rfl := Option.some.inj (step'.symm.trans step)
    exact ⟨fs, sends'⟩
  | opportunity bytes =>
    obtain rfl | ⟨f, sends', -⟩ := sends.opportunity.2 t step
    · exact ⟨fs, sends⟩
    · exact ⟨fs ++ [f], sends'⟩

/-- Whatever PDUs of a sender arrive, in whatever order, and whenever the timer expires: if the
numbers begin in the lower half and each PDU that moves the window comes behind what falls out of
it in the order of the map, the receiver delivers SDUs that were sent, in order and once. -/
theorem delivered_sublist {maxTxBufferSize : Nat} {demands : List (Demand α)} {sender : Sender α}
    (some_ : ∀ d ∈ demands, d ≠ .transmit [])
    (run : Run.exec Sender.step { tx := { maxTxBufferSize } } demands = some sender)
    (arrivals : List Arrival)
    (near : Run.Meets (Reception.step sender.sent) (Reception.Near sender.sent) {} arrivals)
    (inOrder : Run.Meets (Reception.step sender.sent) Reception.InOrder {} arrivals) :
    ∃ r, Run.exec (Reception.step sender.sent) {} arrivals = some r ∧
      r.rx.received.Sublist sender.accepted := by
  obtain ⟨fs, sends⟩ := sends_exec some_ run
  obtain ⟨later, accepted, -⟩ := sends.rest
  rw [sends.sent] at near inOrder ⊢
  obtain ⟨r, returns, arrived⟩ := Run.total (I := Arrived fs (Stream.ofList fs sends.linked))
    (s := {})
    rfl (near.and inOrder) fun r a h both => h.step sends.fits both.1 both.2
  rw [accepted]
  exact ⟨r, returns, arrived.sublist.trans (List.sublist_append_left _ _)⟩

/-- The frame of an SDU in a PDU of its own. -/
def single (i : Nat) : Frame Nat := ⟨[i], [], true, true⟩

/-- A sender that has sent `n` SDUs in a PDU each. -/
def Sender.singles (n : Nat) : Sender Nat where
  tx := { maxTxBufferSize := 10, sequenceNumber := ⟨n % 1024, 0⟩ }
  accepted := (List.range n).map ([·])
  sent := (List.range n).map fun i => pduOf i (single i)

/-- The demands that lead there. -/
def singly (n : Nat) : List (Demand Nat) :=
  (List.range n).flatMap fun i => [.transmit [i], .opportunity 3]

theorem singly_some (n : Nat) : ∀ d ∈ singly n, d ≠ .transmit [] := by
  intro d mem
  obtain ⟨i, -, mem⟩ := mem_flatMap.mp mem
  obtain rfl | mem := mem_cons.mp mem
  · exact fun same => cons_ne_nil i [] (Demand.transmit.inj same)
  · obtain rfl := mem_singleton.mp mem
    exact fun same => absurd same (by decide)

theorem Sender.singles_step (n : Nat) :
    ((Sender.singles n).step (.transmit [n])).bind (·.step (.opportunity 3)) =
      some (Sender.singles (n + 1)) := by
  have short : 2 + LteRlcHeader.liBytes (single n).tail.length < 65536 :=
    (by decide : 2 + LteRlcHeader.liBytes 0 < 65536)
  have header : RlcPdu.addHeader (((({} : LteRlcHeader).pushExtensionBit 0).setSequenceNumber
      (Sender.singles n).tx.sequenceNumber).setFramingInfo (framingInfo .fullSdu .fullSdu))
      ([⟨.fullSdu, [n]⟩].flatMap fun x : TxPdu Nat => x.pdu) = some (pduOf n (single n)) :=
    (addHeader_pushed (f := single n) (forall_mem_nil _) n).trans (if_pos short)
  have sent : doNotifyTxOpportunity { (Sender.singles n).tx with
      txBuffer := [⟨.fullSdu, [n]⟩], txBufferSize := 1 } 3 =
      some ((Sender.singles (n + 1)).tx, some (pduOf n (single n))) := by
    have filled : fillDataField ⟨.fullSdu, [n]⟩ [] 0 1 1 [] {} =
        { txBuffer := [], txBufferSize := 0, dataField := [⟨.fullSdu, [n]⟩]
          rlcHeader := ({} : LteRlcHeader).pushExtensionBit 0 } := rfl
    have size : UInt32.sub 1 1 = 0 := by decide
    have number : (⟨n % 1024, 0⟩ : SequenceNumber10).incr = ⟨(n + 1) % 1024, 0⟩ := incr_at 512 n
    rw [doNotifyTxOpportunity, if_neg (by decide)]
    simp only [length_singleton, size, filled]
    simp only [head?_cons, getLast?_singleton, Option.bind_eq_bind, Option.bind_some]
    rw [header, Option.bind_some]
    change some (_, _) = some (_, _)
    rw [Sender.singles, Sender.singles, number]
  have room : accepts (Sender.singles n).tx [n] = true := rfl
  have first : (Sender.singles n).step (.transmit [n]) = some { Sender.singles n with
      tx := { (Sender.singles n).tx with txBuffer := [⟨.fullSdu, [n]⟩], txBufferSize := 1 }
      accepted := (List.range (n + 1)).map ([·]) } := by
    rw [Sender.step, doTransmitPdcpPdu, room, if_pos rfl, if_pos rfl, range_succ,
      map_append]
    rfl
  rw [first, Option.bind_some, Sender.step, sent]
  rw [Sender.singles, Sender.singles, range_succ, map_append, map_append]
  rfl

theorem Sender.singles_exec (n : Nat) :
    Run.exec Sender.step { tx := { maxTxBufferSize := 10 } } (singly n) =
      some (Sender.singles n) := by
  induction n with
  | zero => rfl
  | succ n ih =>
    obtain ⟨t, first, second⟩ := bind_returns.mp (Sender.singles_step n)
    rw [singly, range_succ, flatMap_append, flatMap_singleton, append_cons]
    exact (Run.exec_concat ((Run.exec_concat ih _).trans first) _).trans second

theorem delivered_sublist_swapped : ∃ r, Run.exec (Reception.step (Sender.singles 2).sent) {}
    [.receive 1, .receive 0, .expire] = some r ∧
      r.rx.received.Sublist (Sender.singles 2).accepted :=
  delivered_sublist (singly_some 2) (Sender.singles_exec 2) _ (by decide)
    (by decide)

/-- SDU 510 is left in the map when the numbers wrap around, and is delivered a cycle later. -/
theorem not_delivered_sublist : ¬ ∀ (maxTxBufferSize : Nat) (demands : List (Demand Nat))
    (sender : Sender Nat), (∀ d ∈ demands, d ≠ .transmit []) →
    Run.exec Sender.step { tx := { maxTxBufferSize } } demands = some sender →
    ∀ arrivals, Run.Meets (Reception.step sender.sent) (Reception.Near sender.sent) {} arrivals →
    ∃ r, Run.exec (Reception.step sender.sent) {} arrivals = some r ∧
      r.rx.received.Sublist sender.accepted := by
  intro claim
  obtain ⟨r, run, sublist⟩ := claim 10 (singly 1534) _ (singly_some 1534) (Sender.singles_exec 1534)
    [.receive 510, .receive 900, .receive 1300, .expire, .receive 1533, .expire] (by decide +kernel)
  have delivered : (Run.exec (Reception.step (Sender.singles 1534).sent) {}
      [.receive 510, .receive 900, .receive 1300, .expire, .receive 1533, .expire]).map
        (·.rx.received) = some [[900], [1300], [1533], [510]] := by decide +kernel
  rw [run, Option.map_some, Option.some.injEq] at delivered
  rw [delivered] at sublist
  exact absurd sublist (by decide +kernel)

end LteRlcUm

end Ns3
