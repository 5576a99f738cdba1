import Ns3.Internet.TcpTxBuffer.Discard
import Ns3.Library.Run

/-!
# The transmit buffer keeps the stream

Any sequence of calls is a run over a session, the buffer together with the
bytes that `Add` accepted. Acknowledged bytes leave at the head, accepted bytes
join at the tail, and between them nothing is lost, duplicated or reordered.
-/

namespace Ns3.TcpTxBuffer

open SequenceNumber

/-- A buffer and all the bytes that it accepted so far. -/
structure Session where
  buffer : TcpTxBuffer
  accepted : List Byte

namespace Session

/-- A call of the buffer. `Add` tells whether it took the packet. -/
def call (profile : BuildProfile) (s : Session) (c : Call) : Option Session :=
  (s.buffer.call profile c).map fun buffer =>
    { buffer
      accepted := match c with
        | .add p => if (s.buffer.add p).1 then s.accepted ++ p else s.accepted
        | _ => s.accepted }

/-- What callers keep to: they send from inside the sent data or from its end,
acknowledge nothing behind the tail, in the order of sequence numbers or by
position, and stop adding before the buffered range would wrap. -/
def Allowed (s : Session) : Call → Prop
  | .add p => NoWrap (s.buffer.add p).2
  | .copyFromSequence _ numBytes seq =>
    0 < numBytes ∧ (seq.sub s.buffer.headSequence).toNat ≤ s.buffer.sentSize
  | .discardUpTo _ seq =>
    seq.le s.buffer.tailSequence = true ∨ (seq.sub s.buffer.headSequence).toNat ≤ s.buffer.size
  | _ => True

instance (s : Session) : (c : Call) → Decidable (s.Allowed c)
  | .add _ => inferInstanceAs (Decidable (_ ≤ _))
  | .copyFromSequence _ _ _ => instDecidableAnd
  | .discardUpTo _ _ => instDecidableOr
  | .update _ | .addRenoSack | .resetRenoSack | .markHeadAsLost
  | .deleteRetransmittedFlagFromHead | .setSentListLost _ | .resetSentList
  | .resetLastSegmentSent => instDecidableTrue

/-- A session with a buffer after its constructor and `SetHeadSequence`. -/
def start (initial : SequenceNumber32) (maxBuffer dupAckThresh segmentSize : Nat)
    (sackEnabled : Bool) : Session where
  buffer := TcpTxBuffer.start initial maxBuffer dupAckThresh segmentSize sackEnabled
  accepted := []

/-- The two lists together hold the accepted bytes from `consumed` on, which is
how far the head has moved; the sent items are in their places, and the counts
of bytes are those of the lists. -/
structure Intact (initial : SequenceNumber32) (consumed : Nat) (s : Session) : Prop where
  removed : consumed ≤ s.accepted.length
  head : s.buffer.headSequence = initial.add consumed
  bytes : bytes s.buffer.sentList ++ TcpTxBuffer.bytes s.buffer.appList =
    s.accepted.drop consumed
  starts : ∀ front item rest, s.buffer.sentList = front ++ item :: rest →
    item.startSeq = s.buffer.headSequence.add (total front)
  sentSize : s.buffer.sentSize = total s.buffer.sentList
  size : s.buffer.size = total s.buffer.sentList + total s.buffer.appList

/-- What an allowed `CopyFromSequence` would return: an item that starts at
`seq` and holds the accepted bytes of that place. Optimized builds do return an
item, except at the tail, while half the sequence space covers the buffer. -/
structure Copies (profile : BuildProfile) (consumed : Nat) (s : Session) (now : Int)
    (numBytes : Nat) (seq : SequenceNumber32) : Prop where
  item : ∀ item b', s.buffer.copyFromSequence profile now numBytes seq = some (some item, b') →
    item.startSeq = seq ∧ 0 < item.size ∧ item.size ≤ numBytes ∧
      item.packet =
        (s.accepted.drop (consumed + (seq.sub s.buffer.headSequence).toNat)).take item.size
  returns : profile = .optimized → s.buffer.size ≤ halfMaxValue 32 →
    s.buffer.headSequence.value.toNat + s.buffer.size < 2 ^ 32 →
    ∃ r b', s.buffer.copyFromSequence profile now numBytes seq = some (r, b') ∧
      (r = none → seq = s.buffer.tailSequence)

/-- The invariant of a session. -/
def Inv (initial : SequenceNumber32) (s : Session) : Prop :=
  NoWrap s.buffer ∧ ∃ consumed, Holds initial s.accepted consumed s.buffer

section Calls

variable {profile : BuildProfile} {initial : SequenceNumber32} {s s' : Session} {c : Call}
variable {b b' : TcpTxBuffer} {stream : List Byte} {consumed : Nat}

theorem Inv.same (inv : Inv initial s) (same : SameData s.buffer b') :
    Inv initial { s with buffer := b' } := by
  obtain ⟨wrap, consumed, h⟩ := inv
  refine ⟨?_, consumed, h.same same⟩
  unfold NoWrap at wrap ⊢
  rwa [same.head, same.size]

/-- A number that is not behind the tail in the order of sequence numbers is not
behind it in position either, unless it is at or before the head. -/
theorem offset_le (wrap : NoWrap b) {seq : SequenceNumber32}
    (le : seq.le b.tailSequence = true) (ahead : ¬ b.firstByteSeq.ge seq = true) :
    (seq.sub b.firstByteSeq).toNat ≤ b.size := by
  have half := halfMaxValue_32
  have notGt : ¬ b.firstByteSeq.gt seq = true := fun gt => ahead (by rw [ge, gt]; rfl)
  have notBehind : ¬ seq.gt b.tailSequence = true := by simpa [SequenceNumber.le] using le
  rw [← at_sub seq b.firstByteSeq] at notGt notBehind
  have tail : b.tailSequence = b.firstByteSeq.at b.size := add_eq_at _ _
  rw [gt_eq_true, BitVec.lt_def, BitVec.lt_def, BitVec.toNat_sub, BitVec.toNat_sub,
    at_value_toNat] at notGt
  rw [tail, gt_eq_true, BitVec.lt_def, BitVec.lt_def, BitVec.toNat_sub, BitVec.toNat_sub,
    at_value_toNat, at_value_toNat] at notBehind
  by_contra beyond
  omega

/-- Every allowed call keeps the bytes of the buffer. -/
theorem Inv.call (inv : Inv initial s) (allowed : s.Allowed c)
    (run : s.call profile c = some s') : Inv initial s' := by
  obtain ⟨wrap, consumed, h⟩ := inv
  obtain ⟨b', step, rfl⟩ := Option.map_eq_some_iff.mp run
  cases c with
  | add p =>
    cases step
    exact ⟨allowed, consumed, h.add p⟩
  | copyFromSequence now numBytes seq =>
    obtain ⟨r, copy, rfl⟩ := Option.map_eq_some_iff.mp step
    have copied : Contract (MayStop profile s.buffer) _ _ :=
      copyFromSequence_contract h wrap now allowed.1 allowed.2
    rw [headSequence, at_sub] at copied
    have copied := copied.of_eq_some copy
    refine ⟨?_, consumed, copied.holds⟩
    have head : r.2.firstByteSeq = s.buffer.firstByteSeq := copied.holds.head.trans h.head.symm
    unfold NoWrap at wrap ⊢
    rwa [head, copied.size]
  | discardUpTo now seq =>
    have le : s.buffer.firstByteSeq.ge seq = true ∨
        (seq.sub s.buffer.firstByteSeq).toNat ≤ s.buffer.size := by
      by_cases already : s.buffer.firstByteSeq.ge seq = true
      · exact .inl already
      · exact .inr (allowed.elim (fun le => offset_le wrap le already) id)
    obtain ⟨n, le, h', size⟩ := (discardUpTo_contract now h (.inl wrap) le).of_eq_some step
    refine ⟨?_, consumed + n, h'⟩
    have value : b'.firstByteSeq.value.toNat =
        (s.buffer.firstByteSeq.value.toNat + n) % 2 ^ 32 := by
      rw [h'.head, Nat.cast_add, ← at_at, ← h.head, at_value_toNat]
    unfold NoWrap at wrap ⊢
    show b'.firstByteSeq.value.toNat + b'.size ≤ 2 ^ 32
    omega
  | resetSentList =>
    cases step
    exact ⟨wrap, consumed, h.resetSentList⟩
  | resetLastSegmentSent =>
    cases step
    have h' := h.resetLastSegmentSent
    refine ⟨?_, consumed, h'⟩
    have size : s.buffer.resetLastSegmentSent.size = s.buffer.size := by
      rw [h'.size, h.size, ← length_bytes, ← length_bytes, h'.bytes, h.bytes]
    unfold NoWrap at wrap ⊢
    rwa [h'.head, ← h.head, size]
  | update list =>
    obtain ⟨r, update, rfl⟩ := Option.map_eq_some_iff.mp step
    exact Inv.same ⟨wrap, consumed, h⟩ (update_same update)
  | addRenoSack => exact Inv.same ⟨wrap, consumed, h⟩ (addRenoSack_same step)
  | resetRenoSack =>
    cases step
    exact Inv.same ⟨wrap, consumed, h⟩ (resetRenoSack_same s.buffer)
  | markHeadAsLost =>
    cases step
    exact Inv.same ⟨wrap, consumed, h⟩ (markHeadAsLost_same s.buffer)
  | deleteRetransmittedFlagFromHead =>
    exact Inv.same ⟨wrap, consumed, h⟩ (deleteRetransmittedFlagFromHead_same step)
  | setSentListLost resetSack => exact Inv.same ⟨wrap, consumed, h⟩ (setSentListLost_same step)

theorem Intact.of_holds (h : Holds initial s.accepted consumed s.buffer) :
    Intact initial consumed s where
  removed := h.bound
  head := h.head.trans (add_eq_at _ _).symm
  bytes := bytes_append.symm.trans h.bytes
  starts := by
    intro front item rest sent
    have starts := h.starts
    rw [sent, starts_append] at starts
    rw [starts.2.1, Nat.zero_add, headSequence, add_eq_at]
  sentSize := h.sentSize
  size := h.size.trans total_append

theorem Copies.of_holds (h : Holds initial s.accepted consumed s.buffer) (wrap : NoWrap s.buffer)
    {now : Int} {numBytes : Nat} {seq : SequenceNumber32}
    (allowed : s.Allowed (.copyFromSequence now numBytes seq)) :
    Copies profile consumed s now numBytes seq := by
  have copied : Contract (MayStop profile s.buffer) _ _ :=
    copyFromSequence_contract h wrap now allowed.1 allowed.2
  rw [headSequence, at_sub] at copied
  constructor
  · intro item b' copy
    obtain ⟨starts, packet, pos, bound, -⟩ := (copied.of_eq_some copy).item item rfl
    exact ⟨starts.trans (at_sub _ _), pos, bound, packet⟩
  · rintro rfl small final
    have goes : ¬ MayStop .optimized s.buffer := by
      rintro (debug | large | last)
      · exact absurd debug (by decide)
      · omega
      · exact absurd final (by rw [headSequence, last]; exact lt_irrefl _)
    obtain ⟨⟨r, b'⟩, copy, copied⟩ := copied.returns goes
    refine ⟨r, b', copy, fun nothing => ?_⟩
    rcases copied.null nothing with last | large
    · rw [tailSequence, add_eq_at, ← last, at_sub]
    · omega

end Calls

/-- Every run of allowed calls leaves the buffer intact, and the item that the
next `CopyFromSequence` returns is the piece of the stream at its place. -/
theorem keeps_stream (profile : BuildProfile) (initial : SequenceNumber32)
    (maxBuffer dupAckThresh segmentSize : Nat) (sackEnabled : Bool) (fits : maxBuffer < 2 ^ 32)
    (calls : List Call) (s : Session)
    (allowed : Run.Meets (call profile) Allowed
      (start initial maxBuffer dupAckThresh segmentSize sackEnabled) calls)
    (run : Run.exec (call profile)
      (start initial maxBuffer dupAckThresh segmentSize sackEnabled) calls = some s) :
    ∃ consumed, Intact initial consumed s ∧
      ∀ now numBytes seq, s.Allowed (.copyFromSequence now numBytes seq) →
        Copies profile consumed s now numBytes seq := by
  have empty : Inv initial (start initial maxBuffer dupAckThresh segmentSize sackEnabled) := by
    refine ⟨(BitVec.isLt _).le, 0, ?_⟩
    exact
      { bytes := rfl
        bound := le_refl _
        head := (at_zero initial).symm
        starts := trivial
        positive := by
          intro item member
          cases member
        sentSize := rfl
        size := rfl
        room := Nat.zero_le _
        maxBuffer := fits }
  obtain ⟨wrap, consumed, h⟩ :=
    Run.invariant empty allowed (fun _ _ _ inv allowed run => inv.call allowed run) run
  exact ⟨consumed, Intact.of_holds h, fun _ _ _ allowed => Copies.of_holds h wrap allowed⟩

/-- Six bytes of which four are sent, the second segment sacked, the first one
lost and sent again in two parts; then an acknowledgement from inside the first
part, and the last segment taken back. -/
theorem keeps_stream_retransmission :
    ∃ s consumed, Run.exec (call .debug) (start (.ofNat 10) 8 1 2 true)
        [.add [1, 2, 3, 4, 5, 6], .copyFromSequence 0 3 (.ofNat 10),
          .copyFromSequence 0 2 (.ofNat 13), .update [(.ofNat 13, .ofNat 15)],
          .copyFromSequence 1 2 (.ofNat 10), .discardUpTo 2 (.ofNat 11),
          .resetLastSegmentSent] = some s ∧
      s.buffer.size = 5 ∧ Intact (.ofNat 10) consumed s := by
  have ran : (Run.exec (call .debug) (start (.ofNat 10) 8 1 2 true)
      [.add [1, 2, 3, 4, 5, 6], .copyFromSequence 0 3 (.ofNat 10),
        .copyFromSequence 0 2 (.ofNat 13), .update [(.ofNat 13, .ofNat 15)],
        .copyFromSequence 1 2 (.ofNat 10), .discardUpTo 2 (.ofNat 11),
        .resetLastSegmentSent]).map (fun s => s.buffer.size) = some 5 := by decide +kernel
  obtain ⟨s, run, size⟩ := Option.map_eq_some_iff.mp ran
  obtain ⟨consumed, intact, -⟩ := keeps_stream .debug (.ofNat 10) 8 1 2 true (by decide)
    [.add [1, 2, 3, 4, 5, 6], .copyFromSequence 0 3 (.ofNat 10),
      .copyFromSequence 0 2 (.ofNat 13), .update [(.ofNat 13, .ofNat 15)],
      .copyFromSequence 1 2 (.ofNat 10), .discardUpTo 2 (.ofNat 11),
      .resetLastSegmentSent] s (by decide +kernel) run
  exact ⟨s, consumed, run, size, intact⟩

end Session

end Ns3.TcpTxBuffer
