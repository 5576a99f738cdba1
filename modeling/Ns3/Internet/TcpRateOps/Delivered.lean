import Ns3.Internet.TcpRateOps.Basic
import Ns3.Internet.TcpTxBuffer.DupThresh
import Ns3.Internet.TcpTxBuffer.Steps

/-!
# What the callbacks leave alone

A callback that is told about items has no part in what happens to the transmit buffer.
-/

namespace Ns3.TcpTxBuffer

variable {κ : Type} (callback : TcpTxItem → κ → κ) {profile : BuildProfile}

theorem sackBlockWith_map (block : SackBlock) (list : PacketList) (pos : SequenceNumber32)
    (k : Sacking) (c : κ) :
    (sackBlockWith callback profile block list pos k c).map (fun r => (r.1, r.2.1)) =
      sackBlock profile block list pos k := by
  induction list generalizing pos k c with
  | nil => rfl
  | cons item rest ih =>
    rw [sackBlockWith, sackBlock]
    split
    · split
      · rw [← ih (pos.add item.size) k c]
        simp [Option.bind_map]
      · rw [← ih (pos.add item.size) (k.mark item pos)
          (callback { item with lost := false, sacked := true } c)]
        simp [Option.bind_map]
    · split
      · rfl
      · rw [← ih (pos.add item.size) k c]
        simp [Option.bind_map]

theorem sackBlocksWith_map (first : SequenceNumber32) (sentSize : Nat) (blocks : SackList)
    (list : PacketList) (k : Sacking) (c : κ) :
    (sackBlocksWith callback profile first sentSize blocks list k c).map
        (fun r => (r.1, r.2.1, r.2.2.1)) = sackBlocks profile first sentSize blocks list k := by
  induction blocks generalizing list k c with
  | nil => rfl
  | cons block blocks ih =>
    rw [sackBlocksWith, sackBlocks]
    split
    · rfl
    · rw [← sackBlockWith_map callback block list first k c]
      simp [Option.bind_map, ih]

theorem updateWith_map (b : TcpTxBuffer) (list : SackList) (c : κ) :
    (b.updateWith callback profile list c).map (fun r => (r.1, r.2.1)) = b.update profile list := by
  rw [updateWith, update,
    ← sackBlocksWith_map callback b.firstByteSeq b.sentSize list b.sentList _ c]
  simp only [Option.bind_eq_bind, Option.map_bind, Option.bind_map, Function.comp_def,
    Option.pure_def]
  congr 1
  funext r
  split
  · rfl
  · split
    · simp
    · simp

theorem discardLoopWith_map (now : Int) (turns offset : Nat) (b : TcpTxBuffer) (c : κ) :
    (discardLoopWith callback profile now turns offset b c).map Prod.fst =
      discardLoop profile now turns offset b := by
  induction turns generalizing offset b c with
  | zero =>
    rw [discardLoopWith, discardLoop]
    split <;> rfl
  | succ turns ih =>
    rw [discardLoopWith, discardLoop]
    split
    · simp only [Option.bind_eq_bind, Option.map_bind, Function.comp_def]
      congr 1
      funext b₁
      cases b₁.sentList with
      | nil => rfl
      | cons item rest =>
        simp only [Option.map_bind, Function.comp_def]
        congr 1
        funext _
        split
        · simp [ih]
        · simp
    · rfl

theorem discardUpToWith_map (now : Int) (b : TcpTxBuffer) (seq : SequenceNumber32) (c : κ) :
    (b.discardUpToWith callback profile now seq c).map Prod.fst =
      b.discardUpTo profile now seq := by
  rw [discardUpToWith, discardUpTo]
  split
  · rfl
  · simp [← discardLoopWith_map callback now _ _ b c, Option.bind_map]

end Ns3.TcpTxBuffer

/-!
## Delivered bytes

What `TcpRateLinux` counts as delivered are the bytes that were acknowledged and those that are
marked as sacked, as long as no item loses its rate information and no byte leaves the transmit
buffer without a report: no range that is sent begins inside a sent item, and an acknowledgement
ends with an item, in front of one that is not sacked.
-/

namespace Ns3

namespace TcpRateLinux

open TcpTxBuffer

variable {now : Int} {skb : TcpTxItem} {r : TcpRateLinux} {node : Nat} {isStart : Bool}

/-- The item at this node will be counted when it is reported. -/
def pending (r : TcpRateLinux) (node : Nat) : Bool := (r.info node).deliveredTime.isSome

theorem sample_same (now : Int) (skb : TcpTxItem) (skbInfo : RateInformation) (time : Int)
    (r : TcpRateLinux) :
    (sample now skb skbInfo time r).rate.delivered = r.rate.delivered ∧
      (sample now skb skbInfo time r).info = r.info := by
  unfold sample
  split
  · exact ⟨rfl, rfl⟩
  · exact ⟨rfl, rfl⟩

theorem skbDelivered_spec (now : Int) (skb : TcpTxItem) (r : TcpRateLinux) :
    (skbDelivered now skb r).rate.delivered =
        r.rate.delivered + (if r.pending skb.node then skb.size else 0) ∧
      ∀ node, (skbDelivered now skb r).pending node = (r.pending node && node != skb.node) := by
  unfold skbDelivered
  simp only
  cases time : (r.info skb.node).deliveredTime with
  | none =>
    have not_ : r.pending skb.node = false := by rw [pending, time]; rfl
    refine ⟨by rw [not_]; rfl, fun node => ?_⟩
    by_cases same : node = skb.node
    · rw [same, not_, Bool.false_and]
    · rw [bne_iff_ne.mpr same, Bool.and_true]
  | some deliveredTime =>
    have is : r.pending skb.node = true := by rw [pending, time]; rfl
    obtain ⟨delivered, info⟩ := sample_same now skb (r.info skb.node) deliveredTime { r with
      rate := { r.rate with delivered := r.rate.delivered + skb.size, deliveredTime := now } }
    refine ⟨by rw [is, if_pos rfl]; exact delivered, fun node => ?_⟩
    simp only [pending, info]
    by_cases same : node = skb.node
    · rw [same, Function.update_self, bne_self_eq_false, Bool.and_false]
      rfl
    · rw [Function.update_of_ne same, bne_iff_ne.mpr same, Bool.and_true]

theorem skbSent_spec (now : Int) (skb : TcpTxItem) (isStart : Bool) (r : TcpRateLinux) :
    (skbSent now skb isStart r).rate.delivered = r.rate.delivered ∧
      ∀ node, (skbSent now skb isStart r).pending node = (node == skb.node || r.pending node) := by
  refine ⟨?_, fun node => ?_⟩
  · unfold skbSent
    split
    · rfl
    · rfl
  · unfold skbSent pending
    simp only
    by_cases same : node = skb.node
    · rw [same, Function.update_self, beq_self_eq_true, Bool.true_or]
      rfl
    · rw [Function.update_of_ne same, beq_eq_false_iff_ne.mpr same, Bool.false_or]

/-- What is looked at when an item is reported. -/
def face (item : TcpTxItem) : Nat × Bool × Nat := (item.node, item.sacked, item.size)

/-- Exactly the items that are not sacked will be counted. -/
def Tracks (r : TcpRateLinux) (list : PacketList) : Prop :=
  ∀ item ∈ list, r.pending item.node = !item.sacked

variable {list rest : PacketList} {item : TcpTxItem} {r' : TcpRateLinux}

theorem Tracks.congr {list' : PacketList} (h : r.Tracks list)
    (same : list'.map face = list.map face) : r.Tracks list' := by
  intro item mem
  have there : face item ∈ list.map face := same ▸ List.mem_map_of_mem mem
  obtain ⟨x, member, eq⟩ := List.mem_map.mp there
  simp only [face, Prod.mk.injEq] at eq
  rw [← eq.1, ← eq.2.1]
  exact h x member

theorem nodes_of_face {list' : PacketList} (same : list'.map face = list.map face) :
    list'.map TcpTxItem.node = list.map TcpTxItem.node := by
  have nodes := congrArg (List.map Prod.fst) same
  simp only [List.map_map, Function.comp_def] at nodes
  exact nodes

theorem sacked_of_face {list' : PacketList} (same : list'.map face = list.map face) :
    flagged TcpTxItem.sacked list' = flagged TcpTxItem.sacked list := by
  have sizes := congrArg (List.map fun x => if x.2.1 then x.2.2 else 0) same
  simp only [List.map_map, Function.comp_def] at sizes
  exact congrArg List.sum sizes

theorem Tracks.delivered (h : r.Tracks rest) (now : Int)
    (other : skb.node ∉ rest.map TcpTxItem.node) : (skbDelivered now skb r).Tracks rest := by
  intro x mem
  have ne : x.node ≠ skb.node := fun same => other (same ▸ List.mem_map_of_mem mem)
  rw [(skbDelivered_spec now skb r).2, bne_iff_ne.mpr ne, Bool.and_true]
  exact h x mem

end TcpRateLinux

namespace TcpTxBuffer

open TcpRateLinux

variable {now : Int} {profile : BuildProfile} {r r' : TcpRateLinux} {list list' : PacketList}
variable {b b' : TcpTxBuffer}

/-! ## SACK options -/

/-- What `Update` marks, it reports. -/
structure Reported (list : PacketList) (r : TcpRateLinux) (list' : PacketList)
    (r' : TcpRateLinux) : Prop where
  nodes : list'.map TcpTxItem.node = list.map TcpTxItem.node
  tracks : r'.Tracks list'
  others : ∀ node ∉ list.map TcpTxItem.node, r'.pending node = r.pending node
  counted : r'.rate.delivered + flagged TcpTxItem.sacked list =
    r.rate.delivered + flagged TcpTxItem.sacked list'

theorem Reported.refl (tracks : r.Tracks list) : Reported list r list r :=
  ⟨rfl, tracks, fun _ _ => rfl, rfl⟩

theorem Reported.cons {item : TcpTxItem} (h : Reported list r list' r')
    (first : r.pending item.node = !item.sacked) (fresh : item.node ∉ list.map TcpTxItem.node) :
    Reported (item :: list) r (item :: list') r' where
  nodes := by rw [List.map_cons, List.map_cons, h.nodes]
  tracks := by
    refine List.forall_mem_cons.mpr ⟨?_, h.tracks⟩
    rw [h.others _ fresh]
    exact first
  others node other := h.others node fun mem => other (List.mem_cons_of_mem _ mem)
  counted := by
    have counted := h.counted
    simp only [flagged_cons]
    omega

/-- An item that is marked and reported, before those behind it. -/
theorem Reported.mark {item marked : TcpTxItem}
    (h : Reported list (skbDelivered now marked r) list' r') (notSacked : item.sacked = false)
    (sacked : marked.sacked = true) (node : marked.node = item.node)
    (size : marked.size = item.size) (first : r.pending item.node = !item.sacked)
    (fresh : item.node ∉ list.map TcpTxItem.node) :
    Reported (item :: list) r (marked :: list') r' := by
  obtain ⟨delivered, pending⟩ := skbDelivered_spec now marked r
  rw [notSacked, Bool.not_false] at first
  refine ⟨by rw [List.map_cons, List.map_cons, h.nodes, node], ?_, ?_, ?_⟩
  · refine List.forall_mem_cons.mpr ⟨?_, h.tracks⟩
    rw [node, h.others _ fresh, pending, node, bne_self_eq_false, Bool.and_false, sacked]
    rfl
  · intro x other
    rw [List.map_cons, List.mem_cons, not_or] at other
    rw [h.others x other.2, pending, node, bne_iff_ne.mpr other.1, Bool.and_true]
  · have counted := h.counted
    rw [delivered, node, first, if_pos rfl, size] at counted
    simp only [flagged_cons, share, notSacked, sacked, if_true, Bool.false_eq_true, if_false, size]
    omega

theorem sackBlockWith_reported {block : SackBlock} {pos : SequenceNumber32} {k k' : Sacking}
    (nodup : (list.map TcpTxItem.node).Nodup) (tracks : r.Tracks list)
    (run : sackBlockWith (skbDelivered now) profile block list pos k r = some (list', k', r')) :
    Reported list r list' r' := by
  induction list generalizing list' pos k k' r with
  | nil =>
    obtain ⟨rfl, -, rfl⟩ : [] = list' ∧ k = k' ∧ r = r' := by
      simpa only [sackBlockWith, Option.some.injEq, Prod.mk.injEq] using run
    exact Reported.refl tracks
  | cons item rest ih =>
    obtain ⟨fresh, nodup⟩ := List.nodup_cons.mp nodup
    obtain ⟨first, others⟩ := List.forall_mem_cons.mp tracks
    have tracks : r.Tracks rest := others
    rw [sackBlockWith] at run
    split at run
    · by_cases sacked : item.sacked = true
      · rw [if_pos sacked] at run
        simp only [bind_returns, pure_returns, Prod.mk.injEq] at run
        obtain ⟨-, -, ⟨rest', k₁, r₁⟩, walk, rfl, -, rfl⟩ := run
        exact (ih nodup tracks walk).cons first fresh
      · rw [if_neg sacked] at run
        simp only [bind_returns, pure_returns, Prod.mk.injEq] at run
        obtain ⟨⟨rest', k₁, r₁⟩, walk, rfl, -, rfl⟩ := run
        have reported : (skbDelivered now { item with lost := false, sacked := true } r).Tracks
            rest := tracks.delivered now fresh
        exact (ih nodup reported walk).mark (Bool.eq_false_iff.mpr sacked) rfl rfl rfl first fresh
    · split at run
      · cases run
        exact Reported.refl (List.forall_mem_cons.mpr ⟨first, tracks⟩)
      · simp only [bind_returns, pure_returns, Prod.mk.injEq] at run
        obtain ⟨⟨rest', k₁, r₁⟩, walk, rfl, -, rfl⟩ := run
        exact (ih nodup tracks walk).cons first fresh

theorem sackBlocksWith_reported {first : SequenceNumber32} {sentSize : Nat} {blocks : SackList}
    {k k' : Sacking} {goesOn : Bool} (nodup : (list.map TcpTxItem.node).Nodup)
    (tracks : r.Tracks list)
    (run : sackBlocksWith (skbDelivered now) profile first sentSize blocks list k r =
      some (list', k', goesOn, r')) : Reported list r list' r' := by
  induction blocks generalizing list k r with
  | nil =>
    obtain ⟨rfl, -, -, rfl⟩ : list = list' ∧ k = k' ∧ true = goesOn ∧ r = r' := by
      simpa only [sackBlocksWith, Option.some.injEq, Prod.mk.injEq] using run
    exact Reported.refl tracks
  | cons block blocks ih =>
    rw [sackBlocksWith] at run
    split at run
    · cases run
      exact Reported.refl tracks
    · simp only [bind_returns] at run
      obtain ⟨⟨list₁, k₁, r₁⟩, walk, run⟩ := run
      have here := sackBlockWith_reported nodup tracks walk
      have later := ih (here.nodes ▸ nodup) here.tracks run
      refine ⟨later.nodes.trans here.nodes, later.tracks, fun node other => ?_, ?_⟩
      · rw [later.others node (here.nodes ▸ other), here.others node other]
      · have := here.counted
        have := later.counted
        omega

/-- All that `Update` reports. -/
theorem updateWith_reported {blocks : SackList} {n : Nat}
    (nodup : (b.sentList.map TcpTxItem.node).Nodup) (tracks : r.Tracks b.sentList)
    (run : b.updateWith (skbDelivered now) profile blocks r = some (n, b', r')) :
    Reported b.sentList r b'.sentList r' ∧ b'.nextNode = b.nextNode := by
  simp only [updateWith, Option.bind_eq_bind, Option.bind_eq_some_iff] at run
  obtain ⟨⟨sentList, k, goesOn, r₁⟩, walk, run⟩ := run
  have reported := sackBlocksWith_reported nodup tracks walk
  split at run
  · cases run
    exact ⟨reported, rfl⟩
  · split at run
    · simp only [Option.bind_eq_some_iff, Option.pure_def, Option.some.injEq,
        Prod.mk.injEq] at run
      obtain ⟨b₁, ⟨-, -, lost⟩, -, -, -, -, -, rfl, rfl⟩ := run
      obtain ⟨list₁, lostOut, rfl, lossMarks⟩ := updateLostCount_marks lost
      have marks := lossMarks.map face fun _ => rfl
      refine ⟨⟨(nodes_of_face marks).trans reported.nodes, reported.tracks.congr marks,
        reported.others, ?_⟩, rfl⟩
      rw [sacked_of_face marks]
      exact reported.counted
    · simp only [Option.bind_eq_some_iff, Option.some.injEq, Option.pure_def,
        Prod.mk.injEq] at run
      obtain ⟨b₁, rfl, -, -, -, -, -, rfl, rfl⟩ := run
      exact ⟨reported, rfl⟩

/-! ## Cumulative acknowledgements -/

/-- The items `front` have left the buffer, each of them reported. -/
structure Left (front rest : PacketList) (b : TcpTxBuffer) (r : TcpRateLinux) (b' : TcpTxBuffer)
    (r' : TcpRateLinux) : Prop where
  sent : b'.sentList = rest
  nextNode : b'.nextNode = b.nextNode
  size : b'.size + total front = b.size
  tracks : r'.Tracks rest
  counted : r'.rate.delivered + flagged TcpTxItem.sacked (front ++ rest) =
    r.rate.delivered + total front + flagged TcpTxItem.sacked rest

variable {front rest : PacketList} {turns offset : Nat}

theorem discardLoopWith_stops {κ : Type} {callback : TcpTxItem → κ → κ} {c : κ}
    (stops : ¬ (0 < b.size ∧ 0 < offset)) :
    discardLoopWith callback profile now turns offset b c = some (b, c) := by
  cases turns with
  | zero => rw [discardLoopWith, if_neg stops]
  | succ turns => rw [discardLoopWith, if_neg stops]

theorem discardLoopWith_left
    (run : discardLoopWith (skbDelivered now) profile now turns offset b r = some (b', r'))
    (sent : b.sentList = front ++ rest)
    (aligned : total front = offset ∨ rest = [] ∧ b.appList = [] ∧ total front ≤ offset)
    (size : b.size = total (b.sentList ++ b.appList)) (small : b.size < 2 ^ 32)
    (positive : Positive b.sentList) (nodup : (b.sentList.map TcpTxItem.node).Nodup)
    (tracks : r.Tracks b.sentList) :
    Left front rest b r b' r' := by
  rw [total_append] at size
  induction front generalizing turns offset b r with
  | nil =>
    have stops : ¬ (0 < b.size ∧ 0 < offset) := by
      rintro ⟨some_, more⟩
      rcases aligned with here | ⟨nothing, noApp, -⟩
      · rw [total_nil] at here
        omega
      · rw [sent, nothing, noApp, List.nil_append, total_nil] at size
        omega
    rw [discardLoopWith_stops stops] at run
    cases run
    rw [sent] at tracks
    exact ⟨sent, rfl, by rw [total_nil, Nat.add_zero], tracks, by rw [total_nil]; rfl⟩
  | cons item front ih =>
    rw [sent] at positive nodup tracks size
    obtain ⟨pos, others⟩ := positive_cons.mp positive
    obtain ⟨fresh, nodup⟩ := List.nodup_cons.mp nodup
    obtain ⟨first, later⟩ := List.forall_mem_cons.mp tracks
    have tracks : r.Tracks (front ++ rest) := later
    simp only [List.cons_append, total_cons] at aligned size
    have whole : item.size ≤ offset := by omega
    have goes : 0 < b.size ∧ 0 < offset := by omega
    cases turns with
    | zero =>
      rw [discardLoopWith, if_pos goes] at run
      cases run
    | succ turns =>
      rw [discardLoopWith, if_pos goes] at run
      simp only [refill, sent, List.cons_append, Option.bind_eq_bind, Option.bind_some,
        Option.bind_eq_some_iff] at run
      obtain ⟨_, -, run⟩ := run
      rw [if_pos whole] at run
      simp only [Option.bind_eq_some_iff] at run
      obtain ⟨b₂, removed, run⟩ := run
      obtain ⟨sackedOut, retrans, lostOut, rfl⟩ :=
        (removeFromCounts_contract item item.size b).of_eq_some removed
      have less : UInt32.sub b.size item.size = b.size - item.size :=
        UInt32.sub_of_le (by omega) small
      have aligned' : total front = offset - item.size ∨
          rest = [] ∧ b.appList = [] ∧ total front ≤ offset - item.size := by
        rcases aligned with here | ⟨nothing, noApp, le⟩
        · exact .inl (by omega)
        · exact .inr ⟨nothing, noApp, by omega⟩
      have size' : UInt32.sub b.size item.size = total (front ++ rest) + total b.appList := by omega
      have small' : UInt32.sub b.size item.size < 2 ^ 32 := by omega
      have left := ih run rfl aligned' size' small' others nodup (tracks.delivered now fresh)
      obtain ⟨delivered, -⟩ := skbDelivered_spec now item r
      refine ⟨left.sent, left.nextNode, ?_, left.tracks, ?_⟩
      · have size := left.size
        simp only at size
        rw [total_cons]
        omega
      · have counted := left.counted
        rw [delivered, first] at counted
        rw [List.cons_append, flagged_cons, total_cons, share]
        cases sacked : item.sacked with
        | true =>
          rw [sacked] at counted
          simp only [Bool.not_true, Bool.false_eq_true, if_false, if_true] at counted ⊢
          omega
        | false =>
          rw [sacked] at counted
          simp only [Bool.not_false, Bool.false_eq_true, if_false, if_true] at counted ⊢
          omega

theorem settleHead_of_notSacked {seq : SequenceNumber32}
    (notSacked : ∀ item ∈ b.sentList.head?, item.sacked = false)
    (run : b.settleHead profile seq = some b') : b' = b := by
  rw [settleHead.eq_def] at run
  cases sent : b.sentList with
  | nil =>
    rw [sent] at run
    exact (Option.some.inj run).symm
  | cons head tail =>
    rw [sent] at run notSacked
    have first : head.sacked = false := notSacked head rfl
    simp only [first, Bool.false_eq_true, if_false, Option.bind_eq_bind, Option.bind_some,
      Option.bind_eq_some_iff] at run
    obtain ⟨-, -, run⟩ := run
    exact (Option.some.inj run).symm

end TcpTxBuffer

end Ns3
