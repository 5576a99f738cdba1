import Ns3.Wifi.MacRxMiddle.Basic
import Ns3.Library.Run

/-!
# Defragmentation and lost fragments

A sender transmits MSDUs in order and may give up on any of them. The receiver forwards
those whose fragments it has received, as long as no MSDU is given up half way: the
fragments that it then keeps make it refuse all that follows.
-/

namespace Ns3.MacRxMiddle

open List Option

/-! ## The sender -/

/-- The transmissions of one MSDU: for each fragment that is sent its attempts in order,
`true` for one that is received. A fragment is sent after the one before it was received,
and the attempts of the last one may all fail. -/
structure Sending where
  type : WifiMacType
  addr1 : Mac48Address
  count : Nat
  attempts : List (List Bool)
  carried : type ≠ .ctl := by decide
  individual : addr1.isGroup = false := by decide
  pos : 0 < count := by decide
  fits : count ≤ 16 := by decide
  sent : attempts.length ≤ count := by decide
  waits : ∀ received ∈ attempts.dropLast, true ∈ received := by decide

namespace Sending

variable (source : Mac48Address) (n : Nat) (content : Nat → Packet) (m : Sending)

/-- The frame of a fragment of MSDU number `n`. -/
def frame (fragment : Nat) (retry : Bool) : WifiMpdu where
  fst := {
    type := m.type
    addr1 := m.addr1
    addr2 := source
    sequenceNumber := n % 4096
    fragmentNumber := fragment
    retry := retry
    moreFragments := fragment + 1 < m.count }
  snd := content fragment

/-- The copies of a frame that are received: all attempts but the first have the Retry
bit. -/
def copies (frame : Bool → WifiMpdu) : Bool → List Bool → List WifiMpdu
  | _, [] => []
  | retry, received :: later => (if received then [frame retry] else []) ++ copies frame true later

/-- The frames received, from a fragment on. -/
def framesFrom : Nat → List (List Bool) → List WifiMpdu
  | _, [] => []
  | fragment, received :: later =>
    copies (m.frame source n content fragment) false received ++ framesFrom (fragment + 1) later

/-- The frames of the MSDU that are received. -/
def frames : List WifiMpdu := m.framesFrom source n content 0 m.attempts

/-- The number of fragments that are received. -/
def received : Nat := m.attempts.countP (true ∈ ·)

/-- All fragments are received. -/
def Complete : Prop := m.received = m.count
  deriving Decidable

/-- The MSDU. -/
def whole : Packet := ((List.range m.count).map content).flatten

/-- The first copy of the first frame that is received has the Retry bit. -/
def late : Bool := m.attempts.head?.any fun received => received.head? == some false

/-- The key of its frames, whatever their number and content. -/
def key : OriginatorKey := (m.frame source 0 (fun _ => []) 0 false).1.key

end Sending

variable (source : Mac48Address) (content : Nat → Nat → Packet)

/-- What is received of the MSDUs from number `n` on. -/
def transmit : Nat → List Sending → List WifiMpdu
  | _, [] => []
  | n, m :: later => m.frames source n (content n) ++ transmit (n + 1) later

/-- The MSDUs all of whose fragments are received, with their sequence numbers. -/
def completed : Nat → List Sending → List (Nat × Packet)
  | _, [] => []
  | n, m :: later =>
    (if m.Complete then [(n % 4096, m.whole (content n))] else []) ++ completed (n + 1) later

/-- The first frame of the MSDU looks like another copy of the frame taken last, which
was the MSDU with sequence number `single`. -/
def Sending.Repeats (single : Option Nat) (n : Nat) (m : Sending) : Prop :=
  m.late = true ∧ single = some (n % 4096)
  deriving Decidable

/-- No complete MSDU comes after one that was given up half way, and none starts with a
repeated sequence control. `single` is the sequence number of the MSDU taken last, if it
was a single frame. -/
def Recovers : Option Nat → Nat → List Sending → Prop
  | _, _, [] => True
  | single, n, m :: later =>
    if m.received = 0 then Recovers single (n + 1) later
    else if m.Complete then
      ¬ m.Repeats single n ∧
        Recovers (if m.count = 1 then some (n % 4096) else none) (n + 1) later
    else if m.Repeats single n ∧ m.received = 1 then Recovers single (n + 1) later
    else ∀ m' ∈ later, ¬ m'.Complete

instance decidableRecovers : (single : Option Nat) → (n : Nat) → (msdus : List Sending) →
    Decidable (Recovers single n msdus)
  | _, _, [] => isTrue trivial
  | single, n, m :: later =>
    have := decidableRecovers single (n + 1) later
    have := decidableRecovers (if m.count = 1 then some (n % 4096) else none) (n + 1) later
    inferInstanceAs (Decidable (if m.received = 0 then _ else if m.Complete then _ else
      if m.Repeats single n ∧ m.received = 1 then _ else _))

/-- What was forwarded for the originator. -/
def heardFrom (key : OriginatorKey) (m : MacRxMiddle) : List (Nat × Packet) :=
  (m.forwarded.filter fun mpdu => mpdu.1.key = key).map fun mpdu => (mpdu.1.sequenceNumber, mpdu.2)

/-! ## A frame at one originator -/

/-- The frame is not taken. -/
def refuses (mpdu : WifiMpdu) (o : OriginatorRxStatus) : Bool :=
  isDuplicate mpdu.1 o || o.defragmenting && !o.isNextFragment mpdu.1.sequenceControl

/-- The status after an individually addressed frame. -/
def after (mpdu : WifiMpdu) (o : OriginatorRxStatus) : OriginatorRxStatus :=
  if refuses mpdu o then o
  else {
    defragmenting := mpdu.1.moreFragments
    lastSequenceControl := mpdu.1.sequenceControl
    fragments :=
      if mpdu.1.moreFragments then o.fragments ++ [mpdu.2]
      else if o.defragmenting then [] else o.fragments }

/-- What the frame completes. -/
def output (mpdu : WifiMpdu) (o : OriginatorRxStatus) : List Packet :=
  if refuses mpdu o || mpdu.1.moreFragments then []
  else if o.defragmenting then [(o.fragments ++ [mpdu.2]).flatten] else [mpdu.2]

variable {source content} {profile : BuildProfile} {mpdu : WifiMpdu} {m : MacRxMiddle}
  {o : OriginatorRxStatus} {key : OriginatorKey}

theorem receive_eq (profile : BuildProfile) (carried : mpdu.1.isDataOrMgt = true)
    (individual : mpdu.1.addr1.isGroup = false) :
    m.receive profile mpdu = some {
      status := Function.update m.status mpdu.1.key (after mpdu (m.status mpdu.1.key))
      forwarded := m.forwarded ++ (output mpdu (m.status mpdu.1.key)).map fun p =>
        (mpdu.1, p) } := by
  by_cases duplicate : isDuplicate mpdu.1 (m.status mpdu.1.key) = true
  · simp [receive, carried, after, output, refuses, duplicate]
  · cases next : (m.status mpdu.1.key).isNextFragment mpdu.1.sequenceControl <;>
      cases defragmenting : (m.status mpdu.1.key).defragmenting <;>
      cases more : mpdu.1.moreFragments <;>
      simp [receive, carried, after, output, refuses, handleFragments,
        OriginatorRxStatus.accumulateFragment, OriginatorRxStatus.accumulateFirstFragment,
        OriginatorRxStatus.accumulateLastFragment, OriginatorRxStatus.setSequenceControl, setStatus,
        duplicate, next, defragmenting, more, individual]

theorem receive_other (other : mpdu.1.key ≠ key) {t : MacRxMiddle}
    (run : m.receive profile mpdu = some t) :
    t.status key = m.status key ∧ t.heardFrom key = m.heardFrom key := by
  have skip (o : OriginatorRxStatus) : (m.setStatus mpdu.1.key o).status key = m.status key := by
    simp [setStatus, Function.update_of_ne (Ne.symm other)]
  simp only [receive, bind_returns] at run
  obtain ⟨-, -, run⟩ := run
  split at run
  case isTrue =>
    cases run
    exact ⟨rfl, rfl⟩
  case isFalse =>
    obtain ⟨⟨aggregate, o⟩, -, run⟩ := bind_returns.mp run
    cases aggregate with
    | none =>
      cases run
      exact ⟨skip o, rfl⟩
    | some packet =>
      cases run
      exact ⟨skip _, by simp [heardFrom, setStatus, other]⟩

theorem receive_returns (profile : BuildProfile) (m : MacRxMiddle)
    (carried : mpdu.1.isDataOrMgt = true) : ∃ t, m.receive profile mpdu = some t := by
  simp only [receive, carried, nsAssert_true, some_bind]
  split
  case isTrue => exact ⟨m, rfl⟩
  case isFalse =>
    cases next : (m.status mpdu.1.key).isNextFragment mpdu.1.sequenceControl <;>
      cases defragmenting : (m.status mpdu.1.key).defragmenting <;>
      cases more : mpdu.1.moreFragments <;>
      simp [handleFragments, OriginatorRxStatus.accumulateFragment,
        OriginatorRxStatus.accumulateFirstFragment, OriginatorRxStatus.accumulateLastFragment,
        next, defragmenting, more]

/-! ## The frames of one originator -/

/-- A frame at one originator: its status and what was heard from it. -/
def take (st : OriginatorRxStatus × List (Nat × Packet)) (mpdu : WifiMpdu) :
    OriginatorRxStatus × List (Nat × Packet) :=
  (after mpdu st.1, st.2 ++ (output mpdu st.1).map fun p => (mpdu.1.sequenceNumber, p))

/-- The receiver, as one originator finds it. -/
theorem receive_project (key : OriginatorKey) (profile : BuildProfile) (frames : List WifiMpdu)
    (carried : ∀ f ∈ frames, f.1.isDataOrMgt = true)
    (individual : ∀ f ∈ frames, f.1.key = key → f.1.addr1.isGroup = false) (m : MacRxMiddle) :
    ∃ t, Run.exec (receive profile) m frames = some t ∧
      (t.status key, t.heardFrom key) =
        (frames.filter fun f => f.1.key = key).foldl take (m.status key, m.heardFrom key) := by
  induction frames generalizing m with
  | nil => exact ⟨m, rfl, rfl⟩
  | cons f later ih =>
    have first := carried f mem_cons_self
    by_cases own : f.1.key = key
    · have step := receive_eq (m := m) profile first (individual f mem_cons_self own)
      obtain ⟨t, run, same⟩ := ih (fun g mem => carried g (mem_cons_of_mem f mem))
        (fun g mem => individual g (mem_cons_of_mem f mem)) _
      refine ⟨t, Run.exec_cons_eq_some.mpr ⟨_, step, run⟩, ?_⟩
      rw [same, filter_cons_of_pos (by simpa using own), foldl_cons]
      congr 1
      subst own
      have all (out : List Packet) : out.filter (fun _ => true) = out :=
        filter_eq_self.mpr fun _ _ => rfl
      simp [take, heardFrom, Function.update_self, List.filter_map, Function.comp_def, all]
    · obtain ⟨u, step⟩ := receive_returns profile m first
      obtain ⟨status, heard⟩ := receive_other own step
      obtain ⟨t, run, same⟩ := ih (fun g mem => carried g (mem_cons_of_mem f mem))
        (fun g mem => individual g (mem_cons_of_mem f mem)) u
      refine ⟨t, Run.exec_cons_eq_some.mpr ⟨u, step, run⟩, ?_⟩
      rw [same, filter_cons_of_neg (by simpa using own), status, heard]

/-! ## Copies of a frame -/

variable {n : Nat} {c : Nat → Packet} {sending : Sending} {fragment : Nat}
  {st : OriginatorRxStatus × List (Nat × Packet)}

theorem take_of_refuses (refused : refuses mpdu st.1 = true) : take st mpdu = st := by
  simp [take, after, output, refused]

theorem isDuplicate_after {copy : WifiMpdu} (taken : refuses mpdu o = false)
    (retry : copy.1.retry = true) (same : copy.1.sequenceControl = mpdu.1.sequenceControl) :
    isDuplicate copy.1 (after mpdu o) = true := by
  simp [isDuplicate, after, taken, retry, same]

theorem take_copy {copy : WifiMpdu} (retry : copy.1.retry = true)
    (same : copy.1.sequenceControl = mpdu.1.sequenceControl) :
    take (take st mpdu) copy = take st mpdu := by
  apply take_of_refuses
  cases taken : refuses mpdu st.1 with
  | false =>
    have duplicate := isDuplicate_after taken retry same
    simp [refuses, take, duplicate]
  | true =>
    rw [take_of_refuses taken]
    simp only [refuses, Bool.or_eq_true, isDuplicate, Bool.and_eq_true] at taken ⊢
    rw [same]
    obtain ⟨-, last⟩ | old := taken
    · exact .inl ⟨retry, last⟩
    · exact .inr old

/-- Of all copies of a frame the first one counts. -/
theorem copies_foldl {g : Bool → WifiMpdu} (retry : ∀ b, (g b).1.retry = b)
    (same : ∀ b, (g b).1.sequenceControl = (g true).1.sequenceControl)
    (b : Bool) (attempts : List Bool) :
    (Sending.copies g b attempts).foldl take st =
      if true ∈ attempts then take st (g (b || attempts.head? == some false)) else st := by
  have again (b : Bool) (later : List Bool) :
      (Sending.copies g true later).foldl take (take st (g b)) = take st (g b) := by
    induction later with
    | nil => rfl
    | cons received later ih =>
      cases received with
      | false => exact ih
      | true =>
        rw [Sending.copies, if_pos rfl, singleton_append, foldl_cons,
          take_copy (retry true) (same b).symm]
        exact ih
  induction attempts generalizing b with
  | nil => simp [Sending.copies]
  | cons received later ih =>
    cases received with
    | true =>
      rw [Sending.copies, if_pos rfl, singleton_append, foldl_cons, again]
      simp
    | false =>
      rw [Sending.copies, if_neg Bool.false_ne_true, nil_append, ih]
      simp

theorem fragment_foldl (received : List Bool) (later : List (List Bool)) :
    (sending.framesFrom source n c fragment (received :: later)).foldl take st =
      (sending.framesFrom source n c (fragment + 1) later).foldl take
        (if true ∈ received then
          take st (sending.frame source n c fragment (received.head? == some false)) else st) := by
  rw [Sending.framesFrom, foldl_append,
    copies_foldl (g := sending.frame source n c fragment) (fun _ => rfl) (fun _ => rfl),
      Bool.false_or]

theorem framesFrom_lost (later : List (List Bool)) (lost : later.countP (true ∈ ·) = 0) :
    sending.framesFrom source n c fragment later = [] := by
  have silent (frame : Bool → WifiMpdu) (b : Bool) (attempts : List Bool)
      (none : true ∉ attempts) : Sending.copies frame b attempts = [] := by
    induction attempts generalizing b with
    | nil => rfl
    | cons received rest ih =>
      cases received with
      | true => exact absurd mem_cons_self none
      | false => exact ih true fun mem => none (mem_cons_of_mem false mem)
  induction later generalizing fragment with
  | nil => rfl
  | cons received later ih =>
    rw [countP_eq_zero] at lost
    have here := lost received mem_cons_self
    simp only [decide_eq_true_eq] at here
    rw [Sending.framesFrom, silent _ _ _ here, nil_append]
    apply ih
    rw [countP_eq_zero]
    exact fun x mem => lost x (mem_cons_of_mem received mem)

/-! ## One MSDU -/

theorem first_received {attempts : List (List Bool)}
    (waits : ∀ received ∈ attempts.dropLast, true ∈ received)
    (some : attempts.countP (true ∈ ·) ≠ 0) :
    ∃ received later, attempts = received :: later ∧ true ∈ received := by
  cases attempts with
  | nil => exact absurd countP_nil some
  | cons received later =>
    refine ⟨received, later, rfl, ?_⟩
    cases later with
    | nil =>
      by_contra lost
      exact some (by simp [lost])
    | cons next rest => exact waits received mem_cons_self

theorem Sending.Complete.all (complete : sending.Complete) :
    sending.attempts.length = sending.count ∧ ∀ received ∈ sending.attempts, true ∈ received := by
  have bound := countP_le_length (p := fun received => decide (true ∈ received))
    (l := sending.attempts)
  have sent := sending.sent
  unfold Sending.Complete Sending.received at complete
  refine ⟨by omega, fun received mem => ?_⟩
  have full : sending.attempts.countP (fun received => decide (true ∈ received)) =
      sending.attempts.length := by omega
  exact of_decide_eq_true (countP_eq_length.mp full received mem)

theorem copies_mem {g : Bool → WifiMpdu} {b : Bool} {attempts : List Bool} {f : WifiMpdu}
    (mem : f ∈ Sending.copies g b attempts) : true ∈ attempts ∧ ∃ b, f = g b := by
  induction attempts generalizing b with
  | nil => cases mem
  | cons received later ih =>
    obtain here | there := mem_append.mp mem
    · cases received with
      | false => cases here
      | true => exact ⟨mem_cons_self, b, mem_singleton.mp here⟩
    · obtain ⟨found, known⟩ := ih there
      exact ⟨mem_cons_of_mem received found, known⟩

theorem framesFrom_mem {later : List (List Bool)} {f : WifiMpdu}
    (mem : f ∈ sending.framesFrom source n c fragment later) :
    ∃ before received rest b, later = before ++ received :: rest ∧ true ∈ received ∧
      f = sending.frame source n c (fragment + before.length) b := by
  induction later generalizing fragment with
  | nil => cases mem
  | cons received later ih =>
    obtain here | there := mem_append.mp mem
    · obtain ⟨found, b, known⟩ := copies_mem here
      exact ⟨[], received, later, b, rfl, found, known⟩
    · obtain ⟨before, received', rest, b, split, found, known⟩ := ih there
      refine ⟨received :: before, received', rest, b, by rw [split]; rfl, found, ?_⟩
      rw [known, length_cons]
      congr 1
      omega

theorem Sending.more (incomplete : ¬ sending.Complete) :
    ∀ f ∈ sending.frames source n c, f.1.moreFragments = true := by
  intro f mem
  obtain ⟨before, received, rest, b, split, found, rfl⟩ := framesFrom_mem mem
  have sent := sending.sent
  simp only [split, length_append, length_cons] at sent
  simp only [Sending.frame, decide_eq_true_eq, Nat.zero_add]
  by_contra last
  have nil : rest = [] := eq_nil_of_length_eq_zero (by omega)
  subst nil
  apply incomplete
  have waits := sending.waits
  rw [split, dropLast_concat] at waits
  have all : (before ++ [received]).countP (true ∈ ·) = (before ++ [received]).length := by
    apply countP_eq_length.mpr
    intro x mem
    rw [decide_eq_true_eq]
    obtain early | now := mem_append.mp mem
    · exact waits x early
    · rw [mem_singleton.mp now]
      exact found
  rw [length_append, length_singleton] at all
  simp only [Sending.Complete, Sending.received, split, all]
  omega

theorem more_foldl {frames : List WifiMpdu} (more : ∀ f ∈ frames, f.1.moreFragments = true) :
    (frames.foldl take st).2 = st.2 ∧
      (st.1.defragmenting = true → (frames.foldl take st).1.defragmenting = true) := by
  induction frames generalizing st with
  | nil => exact ⟨rfl, id⟩
  | cons f later ih =>
    have first := more f mem_cons_self
    obtain ⟨heard, stays⟩ := @ih (take st f) fun g mem => more g (mem_cons_of_mem f mem)
    refine ⟨?_, fun opened => stays ?_⟩
    · rw [foldl_cons, heard]
      simp [take, output, first]
    · simp only [take, after]
      split
      · exact opened
      · exact first

/-- Nothing is being put together, and `single` tells what was taken last. -/
structure Rest (single : Option Nat) (o : OriginatorRxStatus) : Prop where
  idle : o.defragmenting = false
  empty : o.fragments = []
  last : ∀ s, o.lastSequenceControl = s * 16 ↔ single = some s

variable {single : Option Nat}

theorem rest_start : Rest none ({} : OriginatorRxStatus) where
  idle := rfl
  empty := rfl
  last s := by
    have odd : (0xffff : Nat) ≠ s * 16 := by omega
    simp [odd]

theorem Rest.refuses_first (rest : Rest single o) (retry : Bool) :
    refuses (sending.frame source n c 0 retry) o =
      (retry && decide (single = some (n % 4096))) := by
  have last := rest.last (n % 4096)
  simp only [refuses, isDuplicate, Sending.frame, WifiMacHeader.sequenceControl, rest.idle,
    Nat.add_zero, Bool.false_and, Bool.or_false, ← last]
  congr 1

theorem Rest.refuses_second (rest : Rest (some (n % 4096)) o) (retry : Bool) :
    refuses (sending.frame source n c 1 retry) o = false := by
  have last := (rest.last (n % 4096)).mpr rfl
  simp [refuses, isDuplicate, Sending.frame, WifiMacHeader.sequenceControl, rest.idle, last]

/-- The fragment that is due. -/
theorem take_next {j : Nat} {retry : Bool} {fragments : List Packet} {out : List (Nat × Packet)}
    (pos : 0 < j) (small : j < 16) :
    take ({ defragmenting := true, lastSequenceControl := n % 4096 * 16 + (j - 1), fragments }, out)
        (sending.frame source n c j retry) =
      if j + 1 < sending.count then
        ({ defragmenting := true, lastSequenceControl := n % 4096 * 16 + j
           fragments := fragments ++ [c j] }, out)
      else
        ({ defragmenting := false, lastSequenceControl := n % 4096 * 16 + j, fragments := [] },
          out ++ [(n % 4096, (fragments ++ [c j]).flatten)]) := by
  have fresh : ¬ n % 4096 * 16 + (j - 1) = n % 4096 * 16 + j := by omega
  have number : (n % 4096 * 16 + j) / 16 = (n % 4096 * 16 + (j - 1)) / 16 := by omega
  have place : (n % 4096 * 16 + j) % 16 = (n % 4096 * 16 + (j - 1)) % 16 + 1 := by omega
  have taken : refuses (sending.frame source n c j retry)
      { defragmenting := true, lastSequenceControl := n % 4096 * 16 + (j - 1), fragments } =
        false := by
    simp [refuses, isDuplicate, Sending.frame, WifiMacHeader.sequenceControl,
      OriginatorRxStatus.isNextFragment, number, place, beq_eq_false_iff_ne.mpr fresh]
  rw [take, after, output, taken]
  by_cases more : j + 1 < sending.count
  · simp [Sending.frame, WifiMacHeader.sequenceControl, more]
  · simp [Sending.frame, WifiMacHeader.sequenceControl, more]

/-- The fragments after the first are collected up to the last one. -/
theorem collect {later : List (List Bool)} {j : Nat} (pos : 0 < j)
    (length : j + later.length = sending.count) (some : later ≠ [])
    (all : ∀ received ∈ later, true ∈ received) (out : List (Nat × Packet)) :
    (sending.framesFrom source n c j later).foldl take
      ({ defragmenting := true, lastSequenceControl := n % 4096 * 16 + (j - 1)
         fragments := (List.range j).map c }, out) =
      ({ defragmenting := false, lastSequenceControl := n % 4096 * 16 + (sending.count - 1)
         fragments := [] }, out ++ [(n % 4096, sending.whole c)]) := by
  induction later generalizing j with
  | nil => exact absurd rfl some
  | cons received later ih =>
    have small := sending.fits
    rw [length_cons] at length
    have fragments : (List.range j).map c ++ [c j] = (List.range (j + 1)).map c := by
      rw [range_succ, map_append, map_singleton]
    rw [fragment_foldl, if_pos (all received mem_cons_self),
      take_next pos (by omega), fragments]
    cases later with
    | nil =>
      have count : sending.count = j + 1 := by
        rw [← length]
        rfl
      rw [if_neg (by omega), Sending.framesFrom, foldl_nil, Sending.whole, count]
      rfl
    | cons following rest =>
      rw [length_cons] at length
      rw [if_pos (by omega)]
      refine @ih (j + 1) (Nat.succ_pos j) ?_ (cons_ne_nil _ _) fun x mem =>
        all x (mem_cons_of_mem received mem)
      rw [length_cons]
      omega

/-- The first frame counts once, with the Retry bit if its first attempt was lost. -/
theorem first_frame (source : Mac48Address) (n : Nat) (c : Nat → Packet)
    (st : OriginatorRxStatus × List (Nat × Packet)) (some : sending.received ≠ 0) : ∃ later,
    (sending.frames source n c).foldl take st =
      (sending.framesFrom source n c 1 later).foldl take
        (take st (sending.frame source n c 0 sending.late)) ∧
    sending.attempts.length = later.length + 1 ∧
    sending.received = later.countP (true ∈ ·) + 1 ∧
    (∀ received ∈ later, received ∈ sending.attempts) ∧
    (∀ received ∈ later.dropLast, true ∈ received) ∧
    ∀ f ∈ sending.framesFrom source n c 1 later, f ∈ sending.frames source n c := by
  obtain ⟨received, later, attempts, found⟩ := first_received sending.waits some
  refine ⟨later, ?_, by simp [attempts], by simp [Sending.received, attempts, found], ?_, ?_, ?_⟩
  · rw [Sending.frames, Sending.late, attempts, fragment_foldl, if_pos found]
    rfl
  · intro x mem
    rw [attempts]
    exact mem_cons_of_mem received mem
  · intro x mem
    apply sending.waits
    rw [attempts, dropLast_cons_of_ne_nil (by rintro rfl; exact absurd mem not_mem_nil)]
    exact mem_cons_of_mem received mem
  · intro f mem
    rw [Sending.frames, attempts]
    exact mem_append_right _ mem

theorem Rest.refuses_late (rest : Rest single o) :
    refuses (sending.frame source n c 0 sending.late) o = decide (sending.Repeats single n) := by
  rw [rest.refuses_first, Bool.eq_iff_iff, decide_eq_true_iff]
  simp [Sending.Repeats]

/-- A complete MSDU that does not look like a repetition is forwarded. -/
theorem Rest.complete (source : Mac48Address) (c : Nat → Packet) (rest : Rest single o)
    (complete : sending.Complete)
    (fresh : ¬ sending.Repeats single n) (out : List (Nat × Packet)) :
    ∃ o', (sending.frames source n c).foldl take (o, out) =
        (o', out ++ [(n % 4096, sending.whole c)]) ∧
      Rest (if sending.count = 1 then some (n % 4096) else none) o' := by
  have pos := sending.pos
  obtain ⟨length, all⟩ := complete.all
  obtain ⟨later, run, length', -, subset, -, -⟩ := first_frame source n c (o, out)
    (show sending.received ≠ 0 by rw [complete]; omega)
  have taken : refuses (sending.frame source n c 0 sending.late) o = false := by
    rw [rest.refuses_late, decide_eq_false_iff_not]
    exact fresh
  rw [run]
  by_cases one : sending.count = 1
  · have last : later = [] := eq_nil_of_length_eq_zero (by omega)
    refine ⟨{ lastSequenceControl := n % 4096 * 16 }, ?_, rfl, rfl, fun s => ?_⟩
    · rw [last, Sending.framesFrom, foldl_nil, take, after, output, taken]
      simp [Sending.frame, one, rest.idle, rest.empty, WifiMacHeader.sequenceControl, Sending.whole]
    · rw [if_pos one, some.injEq]
      constructor
      · intro same
        exact Nat.eq_of_mul_eq_mul_right (by decide) same
      · rintro rfl
        rfl
  · have more : 0 + 1 < sending.count := by omega
    have first : take (o, out) (sending.frame source n c 0 sending.late) =
        ({ defragmenting := true, lastSequenceControl := n % 4096 * 16 + (1 - 1)
           fragments := (List.range 1).map c }, out) := by
      rw [take, after, output, taken]
      simp [Sending.frame, more, rest.empty, WifiMacHeader.sequenceControl]
    have some : later ≠ [] := by
      rintro rfl
      simp only [length_nil] at length'
      omega
    have fits := sending.fits
    refine ⟨{ lastSequenceControl := n % 4096 * 16 + (sending.count - 1) }, ?_, rfl, rfl,
      fun s => ?_⟩
    · rw [first]
      exact collect Nat.one_pos (by omega) some (fun x mem => all x (subset x mem)) out
    · rw [if_neg one]
      constructor
      · intro same
        simp only at same
        omega
      · exact nofun

theorem take_opens (taken : refuses mpdu st.1 = false) (more : mpdu.1.moreFragments = true) :
    (take st mpdu).1.defragmenting = true := by
  simp [take, after, taken, more]

/-- At rest an MSDU that is given up half way leaves fragments behind, with its first one or
without. -/
theorem Rest.opens (rest : Rest single st.1) (some : sending.received ≠ 0)
    (incomplete : ¬ sending.Complete)
    (kept : ¬ (sending.Repeats single n ∧ sending.received = 1)) :
    ((sending.frames source n c).foldl take st).1.defragmenting = true := by
  have sent := sending.sent
  obtain ⟨later, run, length, received, -, waits, among⟩ := first_frame source n c st some
  have more := fun f mem => sending.more incomplete f (among f mem)
  have bound := countP_le_length (p := fun received => decide (true ∈ received)) (l := later)
  have reach : sending.received < sending.count := by
    unfold Sending.Complete at incomplete
    omega
  have second : 0 + 1 < sending.count := by omega
  rw [run]
  by_cases repeats : sending.Repeats single n
  · have two : sending.received ≠ 1 := fun one => kept ⟨repeats, one⟩
    have third : 1 + 1 < sending.count := by omega
    have rest' := rest
    rw [repeats.2] at rest'
    rw [take_of_refuses (by rw [rest.refuses_late, decide_eq_true repeats])]
    obtain ⟨next, last, rfl, found⟩ := first_received waits (by omega)
    rw [fragment_foldl, if_pos found]
    apply (more_foldl fun f mem => more f (mem_append_right _ mem)).2
    exact take_opens (rest'.refuses_second _) (decide_eq_true third)
  · apply (more_foldl more).2
    refine take_opens ?_ (decide_eq_true second)
    rw [rest.refuses_late, decide_eq_false_iff_not]
    exact repeats

/-! ## All MSDUs -/

theorem completed_none {later : List Sending} (none : ∀ m ∈ later, ¬ m.Complete) :
    completed content n later = [] := by
  induction later generalizing n with
  | nil => rfl
  | cons m later ih =>
    rw [completed, if_neg (none m mem_cons_self), nil_append]
    exact ih fun m' mem => none m' (mem_cons_of_mem m mem)

theorem transmit_more {later : List Sending} (none : ∀ m ∈ later, ¬ m.Complete) :
    ∀ f ∈ transmit source content n later, f.1.moreFragments = true := by
  induction later generalizing n with
  | nil => exact nofun
  | cons m later ih =>
    intro f mem
    obtain here | there := mem_append.mp mem
    · exact m.more (none m mem_cons_self) f here
    · exact ih (fun m' mem => none m' (mem_cons_of_mem m mem)) f there

theorem frames_lost (lost : sending.received = 0) : sending.frames source n c = [] :=
  framesFrom_lost sending.attempts lost

variable {msdus : List Sending}

/-- What recovers is forwarded. -/
theorem Recovers.foldl (recovers : Recovers single n msdus)
    (source : Mac48Address) (content : Nat → Nat → Packet)
    (st : OriginatorRxStatus × List (Nat × Packet))
    (rest : Rest single st.1) : ((transmit source content n msdus).foldl take st).2 =
      st.2 ++ completed content n msdus := by
  induction msdus generalizing single n st with
  | nil => simp [transmit, completed]
  | cons m later ih =>
    rw [Recovers] at recovers
    rw [transmit, completed, foldl_append]
    split at recovers
    case isTrue lost =>
      have incomplete : ¬ m.Complete := by
        have pos := m.pos
        unfold Sending.Complete
        omega
      rw [frames_lost lost, if_neg incomplete]
      exact ih recovers st rest
    case isFalse some =>
      split at recovers
      case isTrue complete =>
        obtain ⟨o, run, rest'⟩ := rest.complete source (content n) complete
          recovers.1 st.2
        rw [if_pos complete, run, ih recovers.2 _ rest', append_assoc]
      case isFalse incomplete =>
        rw [if_neg incomplete]
        split at recovers
        case isTrue repeats =>
          obtain ⟨tail, run, -, count, -⟩ := first_frame source n (content n) st some
          have lost : tail.countP (true ∈ ·) = 0 := by omega
          rw [run, framesFrom_lost tail lost,
            take_of_refuses (by rw [rest.refuses_late, decide_eq_true repeats.1])]
          exact ih recovers st rest
        case isFalse =>
          rw [(more_foldl (transmit_more recovers)).1, completed_none recovers,
            (more_foldl (m.more incomplete)).1, nil_append, append_nil]

/-- A marked byte in the first fragment of one MSDU, and nowhere else. -/
def marked (bad : Nat) : Nat → Nat → Packet := fun n fragment =>
  if n = bad ∧ fragment = 0 then [1] else [0]

/-- The marked byte has not been taken. -/
structure Unmarked (st : OriginatorRxStatus × List (Nat × Packet)) : Prop where
  heard : ∀ p ∈ st.2, 1 ∉ p.2
  fragments : ∀ p ∈ st.1.fragments, 1 ∉ p

theorem Unmarked.foldl {frames : List WifiMpdu} (h : Unmarked st) (plain : ∀ f ∈ frames, 1 ∉ f.2) :
    Unmarked (frames.foldl take st) := by
  induction frames generalizing st with
  | nil => exact h
  | cons f later ih =>
    have here := plain f mem_cons_self
    apply ih ?_ fun g mem => plain g (mem_cons_of_mem f mem)
    have gathered : ∀ p ∈ st.1.fragments ++ [f.2], 1 ∉ p := by
      intro p mem
      obtain old | new := mem_append.mp mem
      · exact h.fragments p old
      · rw [mem_singleton.mp new]
        exact here
    constructor
    · intro p mem
      obtain old | new := mem_append.mp mem
      · exact h.heard p old
      · obtain ⟨q, out, rfl⟩ := List.mem_map.mp new
        rw [output] at out
        split at out
        · cases out
        · split at out
          · rw [mem_singleton.mp out]
            intro marker
            obtain ⟨p, mem, found⟩ := mem_flatten.mp marker
            exact gathered p mem found
          · rw [mem_singleton.mp out]
            exact here
    · intro p mem
      simp only [take, after] at mem
      split at mem
      · exact h.fragments p mem
      · simp only at mem
        split at mem
        · exact gathered p mem
        · split at mem
          · cases mem
          · exact h.fragments p mem

theorem framesFrom_plain {bad : Nat} {later : List (List Bool)} (other : n ≠ bad ∨ 0 < fragment) :
    ∀ f ∈ sending.framesFrom source n (marked bad n) fragment later, 1 ∉ f.2 := by
  intro f mem
  obtain ⟨before, received, rest, b, -, -, rfl⟩ := framesFrom_mem mem
  have unmarked : ¬ (n = bad ∧ fragment + before.length = 0) := by omega
  rw [Sending.frame, marked, if_neg unmarked]
  simp

theorem transmit_plain {bad : Nat} (later : bad < n) :
    ∀ f ∈ transmit source (marked bad) n msdus, 1 ∉ f.2 := by
  induction msdus generalizing n with
  | nil => exact nofun
  | cons m msdus ih =>
    intro f mem
    obtain here | there := mem_append.mp mem
    · exact framesFrom_plain (.inl (by omega)) f here
    · exact ih (by omega) f there

/-- An MSDU whose mark is never heard, though the MSDU is complete. -/
def Loses (source : Mac48Address) (I : OriginatorRxStatus → Prop) (n : Nat) (msdus : List Sending) :
    Prop :=
  ∃ bad, n ≤ bad ∧ (∃ p ∈ completed (marked bad) n msdus, 1 ∈ p.2) ∧
    ∀ st, I st.1 → Unmarked st → Unmarked ((transmit source (marked bad) n msdus).foldl take st)

theorem whole_marked {bad : Nat} : 1 ∈ sending.whole (marked bad bad) := by
  rw [Sending.whole, mem_flatten]
  refine ⟨[1], List.mem_map.mpr ⟨0, mem_range.mpr sending.pos, by simp [marked]⟩, ?_⟩
  exact mem_singleton_self 1

theorem loses_here {I : OriginatorRxStatus → Prop} {m : Sending} {later : List Sending}
    (complete : m.Complete)
    (refused : ∀ o, I o → refuses (m.frame source n (marked n n) 0 m.late) o = true) :
    Loses source I n (m :: later) := by
  have some : m.received ≠ 0 := by
    have pos := m.pos
    rw [complete]
    omega
  refine ⟨n, Nat.le_refl n, ⟨(n % 4096, m.whole (marked n n)), ?_, whole_marked⟩,
    fun st inv plain => ?_⟩
  · rw [completed, if_pos complete]
    exact mem_append_left _ (mem_singleton_self _)
  · obtain ⟨tail, run, -⟩ := first_frame source n (marked n n) st some
    rw [transmit, foldl_append, run, take_of_refuses (refused st.1 inv)]
    apply Unmarked.foldl ?_ (transmit_plain (Nat.lt_succ_self n))
    exact plain.foldl (framesFrom_plain (.inr Nat.one_pos))

theorem Loses.cons {I J : OriginatorRxStatus → Prop} {m : Sending} {later : List Sending}
    (loses : Loses source J (n + 1) later)
    (step : ∀ c st, I st.1 → J ((m.frames source n c).foldl take st).1) :
    Loses source I n (m :: later) := by
  obtain ⟨bad, above, ⟨p, mem, found⟩, lost⟩ := loses
  refine ⟨bad, by omega, ⟨p, mem_append_right _ mem, found⟩, fun st inv plain => ?_⟩
  rw [transmit, foldl_append]
  apply lost _ (step _ st inv)
  exact plain.foldl (framesFrom_plain (.inl (by omega)))

theorem loses_of_open (complete : ∃ m ∈ msdus, m.Complete) :
    Loses source (fun o => o.defragmenting = true) n msdus := by
  induction msdus generalizing n with
  | nil =>
    obtain ⟨m, mem, -⟩ := complete
    cases mem
  | cons m later ih =>
    by_cases here : m.Complete
    · apply loses_here here
      intro o opened
      -- fragment number 0 does not follow any other
      simp [refuses, opened, OriginatorRxStatus.isNextFragment, Sending.frame,
        WifiMacHeader.sequenceControl]
    · obtain ⟨m', mem, there⟩ := complete
      have tail : m' ∈ later := by
        obtain rfl | tail := mem_cons.mp mem
        · exact absurd there here
        · exact tail
      exact (ih ⟨m', tail, there⟩).cons fun c st opened => (more_foldl (m.more here)).2 opened

/-- What does not recover loses an MSDU. -/
theorem loses_of_not_recovers (source : Mac48Address)
    (stuck : ¬ Recovers single n msdus) :
    Loses source (Rest single) n msdus := by
  induction msdus generalizing single n with
  | nil => exact absurd trivial stuck
  | cons m later ih =>
    rw [Recovers] at stuck
    split at stuck
    case isTrue lost =>
      apply (ih stuck).cons
      intro c st rest
      rw [frames_lost lost]
      exact rest
    case isFalse some =>
      split at stuck
      case isTrue complete =>
        by_cases repeats : m.Repeats single n
        · apply loses_here complete
          intro o rest
          rw [rest.refuses_late, decide_eq_true repeats]
        · have stuck' := fun recovers => stuck ⟨repeats, recovers⟩
          apply (ih stuck').cons
          intro c st rest
          obtain ⟨o, run, rest'⟩ := rest.complete source c complete repeats st.2
          rw [run]
          exact rest'
      case isFalse incomplete =>
        split at stuck
        case isTrue repeats =>
          apply (ih stuck).cons
          intro c st rest
          obtain ⟨tail, run, -, count, -⟩ := first_frame source n c st some
          have lost : tail.countP (true ∈ ·) = 0 := by omega
          rw [run, framesFrom_lost tail lost,
            take_of_refuses (by rw [rest.refuses_late, decide_eq_true repeats.1])]
          exact rest
        case isFalse kept =>
          push Not at stuck
          exact (loses_of_open stuck).cons fun c st rest => rest.opens some incomplete kept

theorem transmit_mem (content : Nat → Nat → Packet) (n : Nat)
    (keyed : ∀ m ∈ msdus, m.key source = key) :
    ∀ f ∈ transmit source content n msdus,
      f.1.key = key ∧ f.1.isDataOrMgt = true ∧ f.1.addr1.isGroup = false := by
  induction msdus generalizing n with
  | nil => exact nofun
  | cons m later ih =>
    intro f mem
    obtain here | there := mem_append.mp mem
    · obtain ⟨before, received, rest, b, -, -, rfl⟩ := framesFrom_mem here
      refine ⟨keyed m mem_cons_self, ?_, m.individual⟩
      simp [Sending.frame, WifiMacHeader.isDataOrMgt, m.carried]
    · exact ih (n + 1) (fun m' mem => keyed m' (mem_cons_of_mem m mem)) f there

/-- The receiver forwards exactly the complete MSDUs, for all contents and whatever other
originators send in between, if and only if the sender's losses let it recover. -/
theorem defragmentation_iff_recovers (profile : BuildProfile) (source : Mac48Address)
    (key : OriginatorKey) (first : Nat) (msdus : List Sending)
    (keyed : ∀ m ∈ msdus, m.key source = key) :
    (∀ content frames, frames.filter (fun f => f.1.key = key) =
      transmit source content first msdus →
      (∀ f ∈ frames, f.1.isDataOrMgt = true) →
      ∃ t, Run.exec (receive profile) {} frames = some t ∧
        t.heardFrom key = completed content first msdus) ↔
    Recovers none first msdus := by
  constructor
  · intro forwards
    by_contra stuck
    obtain ⟨bad, -, ⟨p, mem, found⟩, lost⟩ := loses_of_not_recovers source stuck
    have own := transmit_mem (marked bad) first keyed
    have all : (transmit source (marked bad) first msdus).filter (fun f => f.1.key = key) =
        transmit source (marked bad) first msdus :=
      List.filter_eq_self.mpr fun f mem => decide_eq_true (own f mem).1
    obtain ⟨t, run, heard⟩ := forwards (marked bad) _ all fun f mem => (own f mem).2.1
    obtain ⟨t', run', same⟩ := receive_project key profile _ (fun f mem => (own f mem).2.1)
      (fun f mem _ => (own f mem).2.2) {}
    obtain rfl := Option.some.inj (run.symm.trans run')
    have plain := lost ({}, []) rest_start ⟨nofun, nofun⟩
    rw [all] at same
    apply plain.heard p ?_ found
    have out := congrArg Prod.snd same
    simp only [heard] at out
    exact out ▸ mem
  · intro recovers content frames own carried
    have each := transmit_mem content first keyed
    obtain ⟨t, run, same⟩ := receive_project key profile frames carried
      (fun f mem here => (each f (own ▸ List.mem_filter.mpr ⟨mem, decide_eq_true here⟩)).2.2) {}
    refine ⟨t, run, ?_⟩
    have out := recovers.foldl source content ({}, []) rest_start
    rw [own] at same
    exact (congrArg Prod.snd same).trans out

/-- Losses and retransmissions, but no MSDU given up half way. -/
def retransmitted : List Sending := [
  { type := .qosData 5, addr1 := 4, count := 3, attempts :=
    [[true], [false, true, true], [false, true]] },
  { type := .qosData 5, addr1 := 4, count := 2, attempts := [[false, false]] },
  { type := .qosData 5, addr1 := 4, count := 1, attempts := [[false, true]] }]

theorem defragmentation_iff_recovers_retransmitted :
    (∀ content frames, frames.filter (fun f => f.1.key = .qosOriginator 2 5) =
        transmit 2 content 4095 retransmitted →
      (∀ f ∈ frames, f.1.isDataOrMgt = true) →
      ∃ t, Run.exec (receive .debug) {} frames = some t ∧
        t.heardFrom (.qosOriginator 2 5) = completed content 4095 retransmitted) ↔
    Recovers none 4095 retransmitted :=
  defragmentation_iff_recovers .debug 2 (.qosOriginator 2 5) 4095 retransmitted (by decide)

example : Recovers none 4095 retransmitted := by decide

/-- The sender gives up on the second fragment of an MSDU and goes on with the next. -/
def abandoned : List Sending := [
  { type := .data, addr1 := 4, count := 2, attempts := [[true], [false, false]] },
  { type := .data, addr1 := 4, count := 1, attempts := [[true]] }]

/-- The second MSDU is received, and never forwarded. -/
theorem defragmentation_abandoned :
    (Run.exec (receive .debug) {} (transmit 2 (fun n _ => [BitVec.ofNat 8 n]) 0 abandoned)).map
      (heardFrom (.originator 2)) = some [] ∧
    completed (fun n _ => [BitVec.ofNat 8 n]) 0 abandoned = [(1, [1])] := by
  decide

end Ns3.MacRxMiddle
