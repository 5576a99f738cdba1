import Ns3.Lte.LteRlcUm.Receive

/-!
# PDUs in order

A receiver that gets each PDU as it is sent delivers the SDUs that have been sent in full, over
any number of rounds of the sequence numbers.
-/

namespace Ns3

open Frames SequenceNumber10 List Option

namespace LteRlcUm

variable {α : Type} {f : Frame α} {s t : LteRlcUmRx α} {n : Nat}

/-! ## The window -/

theorem isInside_spec {vrUh seqNumber : SequenceNumber10} (high p : Nat)
    (valueH : vrUh.value = high % 1024) (valueP : seqNumber.value = p % 1024) (low : high ≤ p + 512)
    (near : p < high + 512) : isInsideReorderingWindow vrUh seqNumber = decide (p < high) := by
  have base := sub_value valueH
  rw [isInsideReorderingWindow, windowSize, setModulusBase_at valueH base,
    setModulusBase_at valueP base, lt_at low near (by omega) (by omega)]
  have least : (at_ high high).sub 512 = at_ high (high + 512) := by
    ext
    · exact sub_value rfl
    · rfl
  rw [least, le_of_base rfl, Bool.true_and]

theorem rebase {a vrUh : SequenceNumber10} {high p : Nat} (valueH : vrUh.value = high % 1024)
    (valueP : a.value = p % 1024) : a.setModulusBase (vrUh.sub windowSize) = at_ high p :=
  setModulusBase_at valueP (sub_value valueH)

theorem at_add_one (high p : Nat) : (at_ high p).add 1 = at_ high (p + 1) := by
  simp [add, at_]

/-! ## One PDU -/

/-- The receiver has got all PDUs before the `n`th, and keeps the open SDU. -/
structure InStep (kept : Option (List α)) (n : Nat) (s : LteRlcUmRx α) : Prop where
  expects : Expects kept n s
  buffer : s.rxBuffer = []
  vrUr : s.vrUr.value = n % 1024
  vrUh : s.vrUh.value = n % 1024
  timer : s.reorderingTimer = false

theorem inStep_start : InStep none 0 ({} : LteRlcUmRx α) :=
  ⟨⟨rfl, nofun, rfl, rfl⟩, rfl, rfl, rfl, rfl⟩

theorem find_single (sn : Nat) (p : RlcPdu α) (k : Nat) :
    find k [(sn, p)] = if k = sn then some p else none := by
  by_cases same : k = sn
  · simp [find, same]
  · simp [find, same, Ne.symm same]

/-- The window moves by one, and nothing falls outside. -/
theorem moveWindow_next {p : RlcPdu α} (buffer : s.rxBuffer = [(n % 1024, p)])
    (vrUr : s.vrUr.value = n % 1024) :
    moveWindow (at_ n n) s = some { s with vrUh := at_ (n + 1) (n + 1) } := by
  have inside {sn : SequenceNumber10} (value : sn.value = n % 1024) :
      isInsideReorderingWindow (at_ (n + 1) (n + 1)) sn = true := by
    rw [isInside_spec (n + 1) n rfl value (by omega) (by omega)]
    exact decide_eq_true (Nat.lt_succ_self n)
  have e₁ : (at_ n (n + 1)).setModulusBase ((at_ n (n + 1)).sub windowSize) = at_ (n + 1) (n + 1) :=
    rebase rfl rfl
  have e₂ : (at_ (n + 1) (n + 1)).setModulusBase ((at_ (n + 1) (n + 1)).sub windowSize) =
      at_ (n + 1) (n + 1) := rebase rfl rfl
  have insideKey : isInsideReorderingWindow (at_ (n + 1) (n + 1)) (.ofNat (n % 1024)) = true :=
    inside (Nat.mod_mod n 1024)
  rw [moveWindow, reassembleOutsideWindow, at_add_one]
  simp [buffer, reassembleOutsideLoop, rebaseVrUh, e₁, e₂, insideKey, inside vrUr]

/-- What is received at VR(UR) is delivered. -/
theorem deliverFromVrUr_next {p : RlcPdu α} (buffer : s.rxBuffer = [(n % 1024, p)])
    (vrUr : s.vrUr = at_ n n)
    (delivers : reassembleAndDeliver p { s with vrUr := at_ n (n + 1) } = some t)
    (kept : t.rxBuffer = s.rxBuffer) : deliverFromVrUr s = some { t with rxBuffer := [] } := by
  have missing : nextMissing 1024 (n % 1024 + 1) [(n % 1024, p)] = some (n % 1024 + 1) := by
    have absent : find (n % 1024 + 1) [(n % 1024, p)] =
      none := by rw [find_single, if_neg (by omega)]
    rw [nextMissing, absent]
    rfl
  have next : (at_ n n).assign (n % 1024 + 1) = at_ n (n + 1) := by
    have value : (n % 1024 + 1) % 1024 = (n + 1) % 1024 := by omega
    rw [assign_at]
    simp only [at_, value]
  have below : (at_ n n).lt (at_ n (n + 1)) = true := by
    rw [lt_at (by omega) (by omega) (by omega) (by omega)]
    exact decide_eq_true (Nat.lt_succ_self n)
  have done : (at_ n (n + 1)).lt (at_ n (n + 1)) = false := by
    rw [lt_at (by omega) (by omega) (by omega) (by omega)]
    exact decide_eq_false (Nat.lt_irrefl _)
  have here : find (n % 1024) [(n % 1024, p)] = some p := by rw [find_single, if_pos rfl]
  have returns : reassembleSnInterval (at_ n n) (at_ n (n + 1)) { s with vrUr := at_ n (n + 1) } =
      some { t with rxBuffer := [] } := by
    rw [reassembleSnInterval, reassembleSnLoop, if_pos below]
    simp only [at_value, buffer, here, incr_at]
    have erased : OrderedList.erase (n % 1024) [(n % 1024, p)] = [] :=
      OrderedList.erase_cons_self (n % 1024, p) []
    rw [← buffer, delivers, bind_eq_bind, bind_some, reassembleSnLoop, done,
      kept, buffer,
      erased]
    rfl
  rw [deliverFromVrUr]
  simp only [vrUr, at_value, buffer, here, isSome_some, if_true, missing, next, some_bind]
  rw [← buffer]
  exact returns

/-- The next PDU is delivered at once. -/
theorem InStep.receive {kept : Option (List α)} (h : InStep kept n s) (fits : Fits f)
    (first : f.first = kept.isNone) :
    ∃ t, doReceivePdu (pduOf n f) s = some t ∧ InStep (f.accept kept).2 (n + 1) t ∧
      t.received = s.received ++ (f.accept kept).1 := by
  have later : n = n → ∀ message, kept = some message → f.first = false := by
    rintro - message rfl
    exact first
  -- the state when the PDU is handed to `ReassembleAndDeliver`
  let m : LteRlcUmRx α := { s with
    rxBuffer := [(n % 1024, pduOf n f)], vrUr := at_ n (n + 1), vrUh := at_ (n + 1) (n + 1) }
  have expects : Expects kept n m :=
    ⟨h.expects.state, h.expects.s0, h.expects.empty, h.expects.number⟩
  obtain ⟨t, delivers, expects', received, kept_, vrUr, vrUx, vrUh, timer⟩ :=
    reassembleAndDeliver_spec fits expects (Nat.le_refl n) (by omega) later
  rw [if_pos rfl] at expects' received
  have e₁ (x : SequenceNumber10) (value : x.value = n % 1024) :
      x.setModulusBase (s.vrUh.sub windowSize) = at_ n n := rebase h.vrUh value
  have e₂ : (at_ n n).setModulusBase ((at_ n n).sub windowSize) = at_ n n := rebase rfl rfl
  have e₃ : (at_ (n + 1) (n + 1)).setModulusBase ((at_ (n + 1) (n + 1)).sub windowSize) =
      at_ (n + 1) (n + 1) := rebase rfl rfl
  have e₄ : (at_ n (n + 1)).setModulusBase ((at_ (n + 1) (n + 1)).sub windowSize) =
      at_ (n + 1) (n + 1) := rebase rfl rfl
  have notBelow : (at_ n n).lt (at_ n n) = false := by
    rw [lt_at (by omega) (by omega) (by omega) (by omega)]
    exact decide_eq_false (Nat.lt_irrefl _)
  have outside : isInsideReorderingWindow (at_ n n) (at_ n n) = false := by
    rw [isInside_spec n n rfl rfl (by omega) (by omega)]
    exact decide_eq_false (Nat.lt_irrefl _)
  have notAbove : (at_ (n + 1) (n + 1)).gt (at_ (n + 1) (n + 1)) = false := by
    exact decide_eq_false (Nat.lt_irrefl _)
  have stored : store (n % 1024) (pduOf n f) s.rxBuffer = [(n % 1024, pduOf n f)] := by
    rw [h.buffer]
    rfl
  let placed : LteRlcUmRx α := { s with
    rxBuffer := [(n % 1024, pduOf n f)], vrUr := at_ n n, vrUh := at_ n n }
  have moves := @moveWindow_next α placed n (pduOf n f) rfl rfl
  have delivery := deliverFromVrUr_next (s := { placed with vrUh := at_ (n + 1) (n + 1) }) rfl rfl
    delivers kept_
  refine ⟨updateTimer { t with rxBuffer := [] }, ?_, ?_, ?_⟩
  · rw [doReceivePdu, peekHeader_pduOf fits]
    simp only [bind_eq_bind, bind_some, LteRlcHeader.formed, e₁ _ h.vrUr, e₁ _ h.vrUh,
      e₁ ⟨n % 1024, 0⟩ rfl, notBelow, Bool.false_and, Bool.and_false, Bool.or_self, at_value,
        stored,
      rebaseVrUh, e₂, outside, Bool.false_eq_true, if_false]
    rw [moves]
    simp only [bind_some]
    rw [delivery]
    rfl
  · simp only [updateTimer, vrUr, vrUh, timer, m, h.timer, e₃, e₄, notAbove, Bool.false_and,
      Bool.and_false, Bool.false_eq_true, if_false]
    exact ⟨⟨expects'.state, expects'.s0, expects'.empty, expects'.number⟩, rfl, rfl, rfl, rfl⟩
  · simp only [updateTimer, vrUr, vrUh, timer, m, h.timer, e₃, e₄, notAbove, Bool.false_and,
      Bool.and_false, Bool.false_eq_true, if_false]
    exact received

/-! ## Runs -/

/-- A sender and a receiver that gets each PDU at once, with the PDUs and their opportunities. -/
structure Link (α : Type) where
  sender : Sender α
  rx : LteRlcUmRx α := {}
  log : List (Nat × RlcPdu α) := []

/-- The bytes of an opportunity. -/
def Demand.bytes : Demand α → Nat
  | .transmit _ => 0
  | .opportunity bytes => bytes

def Link.step (l : Link α) (d : Demand α) : Option (Link α) := do
  let sender ← l.sender.step d
  let pdus := sender.sent.drop l.sender.sent.length
  let rx ← pdus.foldlM (fun rx p => doReceivePdu p rx) l.rx
  return { sender, rx, log := l.log ++ pdus.map fun p => (d.bytes, p) }

def Link.start (maxTxBufferSize : Nat) : Link α := { sender := { tx := { maxTxBufferSize } } }

/-- The receiver has delivered what the frames end. -/
structure Transfers (l : Link α) : Prop where
  carries : ∃ fs, Sends fs l.sender ∧ InStep (openAfter fs) fs.length l.rx ∧
    l.rx.received = endedBy fs
  log : ∀ e ∈ l.log, e.2.size ≤ e.1

theorem transfers_start (maxTxBufferSize : Nat) : Transfers (Link.start maxTxBufferSize : Link α) :=
  ⟨⟨[], sends_start maxTxBufferSize, inStep_start, rfl⟩, nofun⟩

theorem Transfers.received {l : Link α} (h : Transfers l) :
    l.rx.received = l.sender.accepted.take
      (l.sender.accepted.length - l.sender.tx.txBuffer.length) := by
  obtain ⟨fs, sends, -, received⟩ := h.carries
  obtain ⟨later, accepted, waits⟩ := sends.rest
  rw [received, accepted, waits.length, length_append, Nat.add_sub_cancel, take_left]

/-- The condition on a demand: SDUs are not empty, and opportunities not too long. -/
def Link.Allows (l : Link α) (d : Demand α) : Prop :=
  d ≠ .transmit [] ∧ ∀ bytes, d = .opportunity bytes → ¬ Overlong l.sender.tx.txBuffer bytes

theorem Transfers.step {l : Link α} (h : Transfers l) {d : Demand α} (allows : l.Allows d) :
    ∃ m, l.step d = some m ∧ Transfers m := by
  obtain ⟨fs, sends, inStep, received⟩ := h.carries
  -- without a new PDU the receiver stays as it is
  have stays {sender : Sender α} (called : l.sender.step d = some sender)
      (same : sender.sent = l.sender.sent) (sends' : Sends fs sender) :
      ∃ m, l.step d = some m ∧ Transfers m := by
    refine ⟨{ l with sender }, ?_, ⟨fs, sends', inStep, received⟩, h.log⟩
    rw [Link.step, called]
    simp [same]
  cases d with
  | transmit p =>
    obtain ⟨sender, called, sends'⟩ := sends.transmit fun empty => allows.1 (empty ▸ rfl)
    exact stays called (by obtain rfl := some.inj called; rfl) sends'
  | opportunity bytes =>
    obtain ⟨returns, cases_⟩ := @Sends.opportunity α fs l.sender sends bytes
    obtain ⟨sender, called⟩ := returns (allows.2 bytes rfl)
    obtain rfl | ⟨f, sends', -, sent, size⟩ := cases_ sender called
    · exact stays called rfl sends
    · obtain ⟨first, fits⟩ := sends'.last
      obtain ⟨rx, receives, inStep', received'⟩ := inStep.receive fits first
      refine ⟨{ sender, rx, log := l.log ++ [(bytes, pduOf fs.length f)] }, ?_,
        ⟨fs ++ [f], sends', ?_, ?_⟩, fun e mem => ?_⟩
      · rw [Link.step, called]
        simp [sent, receives, Demand.bytes]
      · rw [Frame.accept_exact first] at inStep'
        rw [openAfter_concat, length_append, length_singleton]
        exact inStep'
      · rw [received', endedBy_concat, received, Frame.accept_exact first]
      · obtain mem | mem := mem_append.mp mem
        · exact h.log e mem
        · obtain rfl := mem_singleton.mp mem
          exact size

theorem received_in_order (maxTxBufferSize : Nat) (demands : List (Demand α))
    (allows : Run.Meets Link.step Link.Allows (Link.start maxTxBufferSize) demands) :
    ∃ l, Run.exec Link.step (Link.start maxTxBufferSize) demands = some l ∧
      (∀ e ∈ l.log, e.2.size ≤ e.1) ∧
      l.rx.received =
        l.sender.accepted.take (l.sender.accepted.length - l.sender.tx.txBuffer.length) := by
  obtain ⟨l, returns, h⟩ :=
    Run.total (transfers_start maxTxBufferSize) allows fun l d h allows => h.step allows
  exact ⟨l, returns, h.log, h.received⟩

/-- An opportunity is not too long for the header of its PDU. -/
def Link.Short (l : Link α) (d : Demand α) : Prop :=
  ∀ bytes, d = .opportunity bytes → ¬ Overlong l.sender.tx.txBuffer bytes

instance (l : Link α) (d : Demand α) : Decidable (l.Short d) :=
  match d with
  | .transmit _ => isTrue nofun
  | .opportunity bytes => decidable_of_iff (¬ Overlong l.sender.tx.txBuffer bytes)
      ⟨fun short _ same => Demand.opportunity.inj same ▸ short, fun short => short bytes rfl⟩

theorem Transfers.short {l m : Link α} (h : Transfers l) {d : Demand α} (step : l.step d = some m) :
    l.Short d := by
  rintro bytes rfl long
  obtain ⟨fs, sends, -, -⟩ := h.carries
  rw [Link.step, sends.overlong long] at step
  cases step

/-- The PDUs fit into their opportunities and the receiver delivers the SDUs that have been sent
in full, in every run whose opportunities are not too long for a header and in no other. -/
theorem received_in_order_iff (maxTxBufferSize : Nat) (demands : List (Demand α))
    (some_ : ∀ d ∈ demands, d ≠ .transmit []) :
    (∃ l, Run.exec Link.step (Link.start maxTxBufferSize) demands = some l ∧
      (∀ e ∈ l.log, e.2.size ≤ e.1) ∧
      l.rx.received =
        l.sender.accepted.take (l.sender.accepted.length - l.sender.tx.txBuffer.length)) ↔
      Run.Meets Link.step Link.Short (Link.start maxTxBufferSize) demands := by
  constructor
  · rintro ⟨l, returns, -, -⟩
    have domain : Run.Meets Link.step (fun _ d => d ≠ .transmit []) (Link.start maxTxBufferSize)
        demands := Run.Meets.of_calls some_ _
    refine Run.meets_of_exec (transfers_start maxTxBufferSize) domain ?_ ?_ returns
    · intro l d m h inside step
      obtain ⟨m', step', h'⟩ := h.step ⟨inside, h.short step⟩
      obtain rfl := Option.some.inj (step'.symm.trans step)
      exact h'
    · exact fun l d m h _ step => h.short step
  · intro meets
    have allows := (meets.and_forall some_).mono (D := Link.Allows) fun _ _ h => ⟨h.2, h.1⟩
    exact received_in_order maxTxBufferSize demands allows

theorem received_in_order_iff_two :
    (∃ l, Run.exec Link.step (Link.start 100) [.transmit [1, 2], .opportunity 3, .opportunity 5] =
        some l ∧ (∀ e ∈ l.log, e.2.size ≤ e.1) ∧
      l.rx.received =
        l.sender.accepted.take (l.sender.accepted.length - l.sender.tx.txBuffer.length)) ∧
      Run.Meets Link.step Link.Short (Link.start 100)
        [.transmit [1, 2], .opportunity 3, .opportunity 5] := by
  have meets : Run.Meets Link.step Link.Short (Link.start 100)
      [Demand.transmit [1, 2], .opportunity 3, .opportunity 5] := by decide +kernel
  exact ⟨(received_in_order_iff 100 _ (by decide)).mpr meets, meets⟩

/-- `n` SDUs of one byte wait. -/
def Link.waiting (n : Nat) : Link Nat where
  sender := { tx := { maxTxBufferSize := 65536
                      txBufferSize := n
                      txBuffer := List.replicate n ⟨.fullSdu, [0]⟩ }
              accepted := List.replicate n [0] }

theorem Link.waiting_transmit {n : Nat} (room : n < 65536) :
    (Link.waiting n).step (.transmit [0]) = some (Link.waiting (n + 1)) := by
  have size : UInt32.add n 1 = n + 1 := UInt32.add_of_lt (by omega)
  have accepted : accepts (Link.waiting n).sender.tx [0] = true := by
    rw [accepts, Link.waiting, length_singleton, size]
    exact decide_eq_true room
  simp only [Link.step, Sender.step, doTransmitPdcpPdu, accepted, if_true]
  simp [Link.waiting, size, replicate_succ']

theorem Link.waiting_exec {n : Nat} (room : n ≤ 65536) :
    Run.exec Link.step (Link.start 65536) (List.replicate n (.transmit [0])) =
      some (Link.waiting n) := by
  induction n with
  | zero => rfl
  | succ n ih =>
    rw [replicate_succ', Run.exec_concat (ih (Nat.le_of_succ_le room))]
    exact Link.waiting_transmit room

theorem Link.waiting_sends (n : Nat) : Sends [] (Link.waiting n).sender := by
  refine ⟨linked_nil, nofun, rfl, rfl, List.replicate n [0], rfl, ?_⟩
  have some_ : [] ∉ List.replicate n [0] := by simp [mem_replicate]
  have waits := waits_none some_
  rw [map_replicate] at waits
  exact waits

theorem Link.waiting_length (n k : Nat) :
    (((Link.waiting n).sender.tx.txBuffer.take k).flatMap (·.pdu)).length = min k n := by
  rw [Link.waiting, take_replicate]
  induction min k n with
  | zero => rfl
  | succ m ih => rw [replicate_succ, flatMap_cons, length_append, ih, Nat.add_comm]; rfl

theorem Link.waiting_overlong {n bytes : Nat} (many : 43690 ≤ n) (long : n + 65536 ≤ bytes) :
    Overlong (Link.waiting n).sender.tx.txBuffer bytes := by
  refine ⟨?_, fun p mem => ?_, ?_⟩
  · rw [Link.waiting, length_replicate]
    exact many
  · obtain ⟨-, rfl⟩ := mem_replicate.mp (mem_of_mem_take mem)
    exact Nat.lt_add_left 2046 Nat.one_lt_two
  · rw [Link.waiting_length]
    omega

theorem Link.waiting_stops {n bytes : Nat} (room : n ≤ 65536) (many : 43690 ≤ n)
    (long : n + 65536 ≤ bytes) :
    Run.exec Link.step (Link.start 65536)
      (List.replicate n (.transmit [0]) ++ [.opportunity bytes]) = none := by
  rw [Run.exec_concat (Link.waiting_exec room), Link.step,
    (Link.waiting_sends n).overlong (Link.waiting_overlong many long)]
  rfl

/-- The header of 43690 SDUs does not fit into its sixteen bits. -/
theorem not_received_in_order : ¬ ∀ (maxTxBufferSize : Nat) (demands : List (Demand Nat)),
    (∀ d ∈ demands, d ≠ .transmit []) →
    ∃ l, Run.exec Link.step (Link.start maxTxBufferSize) demands = some l ∧
      (∀ e ∈ l.log, e.2.size ≤ e.1) ∧
      l.rx.received =
        l.sender.accepted.take (l.sender.accepted.length - l.sender.tx.txBuffer.length) := by
  intro claim
  obtain ⟨n, bytes, room, many, long⟩ : ∃ n bytes, n ≤ 65536 ∧ 43690 ≤ n ∧ n + 65536 ≤ bytes :=
    ⟨43690, 200000, by omega, by omega, by omega⟩
  have some_ : ∀ d ∈ List.replicate n (Demand.transmit [0]) ++ [.opportunity bytes],
      d ≠ .transmit [] := by
    intro d mem
    obtain mem | mem := List.mem_append.mp mem
    · exact (List.mem_replicate.mp mem).2 ▸ by decide
    · exact List.mem_singleton.mp mem ▸ nofun
  obtain ⟨l, returns, -, -⟩ := claim 65536 _ some_
  exact absurd (returns.symm.trans (Link.waiting_stops room many long)) nofun

end LteRlcUm

end Ns3
