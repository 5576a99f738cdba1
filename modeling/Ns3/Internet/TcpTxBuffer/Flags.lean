import Ns3.Internet.TcpTxBuffer.Copy
import Ns3.Internet.TcpTxBuffer.Steps

/-!
# Calls that only touch flags

Most calls of the buffer change the flags of items, the counters and
`m_highestSack`, and nothing else. `SameData` describes them, and they keep
everything that is said about the bytes of the two lists.
-/

namespace Ns3.TcpTxBuffer

open SequenceNumber List Option

/-- Two lists of items with the same packets and begins. -/
def SameItems (list list' : PacketList) : Prop :=
  list.map (fun item => (item.startSeq, item.packet)) =
    list'.map fun item => (item.startSeq, item.packet)

namespace SameItems

variable {list list' : PacketList} {item item' : TcpTxItem}

theorem refl (list : PacketList) : SameItems list list := rfl

theorem trans {list'' : PacketList} (h : SameItems list list') (h' : SameItems list' list'') :
    SameItems list list'' := Eq.trans h h'

theorem cons (startSeq : item.startSeq = item'.startSeq) (packet : item.packet = item'.packet)
    (h : SameItems list list') : SameItems (item :: list) (item' :: list') := by
  simp only [SameItems, map_cons, startSeq, packet]
  exact congrArg _ h

theorem map (f : TcpTxItem → TcpTxItem) (startSeq : ∀ item, (f item).startSeq = item.startSeq)
    (packet : ∀ item, (f item).packet = item.packet) (list : PacketList) :
    SameItems (list.map f) list := by
  simp [SameItems, Function.comp_def, startSeq, packet]

theorem append {front front' : PacketList} (h : SameItems front front')
    (h' : SameItems list list') : SameItems (front ++ list) (front' ++ list') := by
  simp only [SameItems, map_append]
  exact congrArg₂ _ h h'

section

variable (h : SameItems list list')
include h

theorem bytes : bytes list = TcpTxBuffer.bytes list' := by
  have := congrArg (List.flatMap Prod.snd) h
  simp only [flatMap_map] at this
  exact this

theorem total : total list = TcpTxBuffer.total list' := by
  rw [← length_bytes, h.bytes, length_bytes]

theorem starts {head : SequenceNumber32} {pos : Nat}
    (starts : Starts head pos list') : Starts head pos list := by
  induction list' generalizing list pos with
  | nil =>
    obtain rfl : list = [] := map_eq_nil_iff.mp h
    trivial
  | cons item' rest' ih =>
    cases list with
    | nil => exact absurd h (by simp [SameItems])
    | cons item rest =>
      simp only [SameItems, map_cons, List.cons.injEq, Prod.mk.injEq] at h
      obtain ⟨⟨startSeq, packet⟩, rest_⟩ := h
      refine ⟨startSeq.trans starts.1, ?_⟩
      rw [TcpTxItem.size, packet]
      exact ih rest_ starts.2

theorem forall_size {P : Nat → Prop}
    (all : ∀ item ∈ list', P item.size) : ∀ item ∈ list, P item.size := by
  have sizes : list.map TcpTxItem.size = list'.map TcpTxItem.size := by
    have := congrArg (List.map fun p => p.2.length) h
    simp only [List.map_map] at this
    exact this
  intro item member
  have : item.size ∈ list'.map TcpTxItem.size := sizes ▸ List.mem_map_of_mem member
  obtain ⟨item', member', eq⟩ := List.mem_map.mp this
  exact eq ▸ all item' member'

theorem positive (positive : Positive list') : Positive list :=
  h.forall_size positive

end

end SameItems

/-- A call that changes only flags, counters and `m_highestSack`. -/
structure SameData (b b' : TcpTxBuffer) : Prop where
  sent : SameItems b'.sentList b.sentList
  app : b'.appList = b.appList
  size : b'.size = b.size
  sentSize : b'.sentSize = b.sentSize
  head : b'.firstByteSeq = b.firstByteSeq
  maxBuffer : b'.maxBuffer = b.maxBuffer

theorem SameData.refl (b : TcpTxBuffer) : SameData b b := ⟨rfl, rfl, rfl, rfl, rfl, rfl⟩

theorem SameData.trans {b b' b'' : TcpTxBuffer} (h : SameData b b') (h' : SameData b' b'') :
    SameData b b'' where
  sent := h'.sent.trans h.sent
  app := h'.app.trans h.app
  size := h'.size.trans h.size
  sentSize := h'.sentSize.trans h.sentSize
  head := h'.head.trans h.head
  maxBuffer := h'.maxBuffer.trans h.maxBuffer

section Flags

variable {initial : SequenceNumber32} {stream : List Byte} {consumed : Nat}
variable {b b' : TcpTxBuffer} {profile : BuildProfile}

theorem Holds.same (h : Holds initial stream consumed b) (same : SameData b b') :
    Holds initial stream consumed b' := by
  obtain ⟨positive, positiveApp⟩ := positive_append.mp h.positive
  exact
    { bytes := by rw [bytes_append, same.sent.bytes, same.app, ← bytes_append, h.bytes]
      bound := h.bound
      head := same.head.trans h.head
      starts := by
        rw [same.head]
        exact same.sent.starts h.starts
      positive := positive_append.mpr ⟨same.sent.positive positive, same.app ▸ positiveApp⟩
      sentSize := by rw [same.sentSize, h.sentSize, same.sent.total]
      size := by rw [same.size, h.size, total_append, total_append, same.sent.total, same.app]
      room := by
        rw [same.size, same.maxBuffer]
        exact h.room
      maxBuffer := by
        rw [same.maxBuffer]
        exact h.maxBuffer }

theorem markHeadAsLost_same (b : TcpTxBuffer) : SameData b b.markHeadAsLost := by
  unfold markHeadAsLost
  split
  · exact SameData.refl b
  · next head tail eq =>
      exact ⟨eq ▸ SameItems.cons rfl rfl (SameItems.refl tail), rfl, rfl, rfl, rfl, rfl⟩

theorem sackFirst_same (list : PacketList) : SameItems (sackFirst list).1 list := by
  induction list with
  | nil => rfl
  | cons item rest ih =>
    rw [sackFirst]
    split
    · exact SameItems.cons rfl rfl ih
    · exact SameItems.cons rfl rfl (SameItems.refl rest)

theorem addRenoSack_contract (inFlight : b.sentList ≠ []) :
    Contract (profile = .debug) (b.addRenoSack profile) (SameData b) := by
  refine (nsAssert_contract profile _).bind fun _ _ => ?_
  cases eq : b.sentList with
  | nil => exact absurd eq inFlight
  | cons head tail =>
    have same := sackFirst_same tail
    rcases found : sackFirst tail with ⟨tail', item | item⟩
    · simp only [found]
      exact SameData.refl b
    · simp only [found]
      rw [found] at same
      exact ⟨eq ▸ SameItems.cons rfl rfl same, rfl, rfl, rfl, rfl, rfl⟩

theorem addRenoSack_same (run : b.addRenoSack profile = some b') : SameData b b' := by
  by_cases inFlight : b.sentList = []
  · simp only [addRenoSack, inFlight, bind_returns] at run
    obtain ⟨-, -, stopped⟩ := run
    cases stopped
  · exact (addRenoSack_contract inFlight).of_eq_some run

theorem resetRenoSack_same (b : TcpTxBuffer) : SameData b b.resetRenoSack where
  sent := SameItems.map (fun item => { item with sacked := false }) (fun _ => rfl) (fun _ => rfl) _
  app := rfl
  size := rfl
  sentSize := rfl
  head := rfl
  maxBuffer := rfl

theorem deleteRetransmittedFlagFromHead_same (run : b.deleteRetransmittedFlagFromHead = some b') :
    SameData b b' := by
  rw [deleteRetransmittedFlagFromHead] at run
  split at run
  · exact some.inj run ▸ SameData.refl b
  · split at run
    · cases run
    · next head tail sent =>
        rw [some.injEq] at run
        subst run
        split
        · exact ⟨sent ▸ SameItems.cons rfl rfl (SameItems.refl tail), rfl, rfl, rfl, rfl, rfl⟩
        · exact SameData.refl b

theorem Marked.same {head : SequenceNumber32} {blocks : SackList} {list list' : PacketList}
    {k k' : Sacking} (h : Marked head blocks list k list' k') : SameItems list' list := by
  induction h with
  | refl list k => exact SameItems.refl list
  | @mark front rest list' item k k' block _ _ _ _ ih =>
    exact ih.trans ((SameItems.refl front).append (SameItems.cons rfl rfl (SameItems.refl rest)))

theorem LossMarks.same {l l' : Nat} {list list' : PacketList} (h : LossMarks list l list' l') :
    SameItems list' list := by
  induction h with
  | refl list l => exact SameItems.refl list
  | keep item _ ih => exact SameItems.cons rfl rfl ih
  | mark _ _ ih => exact SameItems.cons rfl rfl ih

theorem updateLostCount_same (run : b.updateLostCount = some b') : SameData b b' := by
  obtain ⟨sentList, lostOut, rfl, marks⟩ := updateLostCount_marks run
  exact ⟨marks.same, rfl, rfl, rfl, rfl, rfl⟩

theorem update_same {list : SackList} {sacked : Nat}
    (run : b.update profile list = some (sacked, b')) : SameData b b' := by
  simp only [update, bind_eq_bind, bind_eq_some_iff] at run
  obtain ⟨⟨sentList, k, goesOn⟩, walk, run⟩ := run
  have same := (sackBlocks_marked walk fun _ => id).1.same
  have marked : SameData b { b with
      sentList, lostOut := k.lostOut, sackedOut := k.sackedOut, highestSack := k.highestSack } :=
    ⟨same, rfl, rfl, rfl, rfl, rfl⟩
  split at run
  · simp only [Option.pure_def, some.injEq, Prod.mk.injEq] at run
    exact run.2 ▸ marked
  · simp only [bind_eq_some_iff, Option.pure_def, some.injEq, Prod.mk.injEq] at run
    obtain ⟨b₁, counted, -, -, -, -, -, rfl⟩ := run
    split at counted
    · simp only [bind_eq_some_iff] at counted
      obtain ⟨-, -, counted⟩ := counted
      exact marked.trans (updateLostCount_same counted)
    · exact some.inj counted ▸ marked

theorem setSentListLost_same {resetSack : Bool}
    (run : b.setSentListLost profile resetSack = some b') : SameData b b' := by
  simp only [setSentListLost, bind_returns, pure_returns] at run
  obtain ⟨-, -, run⟩ := run
  subst run
  cases resetSack with
  | true =>
    refine ⟨?_, rfl, rfl, rfl, rfl, rfl⟩
    exact SameItems.map
      (fun item => { item with sacked := false, lost := true, retrans := false })
      (fun _ => rfl) (fun _ => rfl) b.sentList
  | false =>
    refine ⟨?_, rfl, rfl, rfl, rfl, rfl⟩
    exact SameItems.map
      (fun item => { item with lost := item.lost || !item.sacked, retrans := false })
      (fun _ => rfl) (fun _ => rfl) b.sentList

end Flags

end Ns3.TcpTxBuffer
