import Ns3.Internet.TcpRxBuffer.Arranged
import Ns3.Internet.TcpRxBuffer.Basic

/-!
# The FIN in the receive buffer

Once the position of the FIN is known, the buffer counts it as soon as all data before
it has been received: the next expected byte is never the FIN itself. So the
acknowledgement number that follows the data follows the FIN, too.
-/

namespace Ns3.TcpRxBuffer

variable {profile : BuildProfile} {b c : TcpRxBuffer}

/-- The FIN is not what is expected next. -/
def FinCounted (b : TcpRxBuffer) : Prop := b.gotFin = true → b.nextRxSeq ≠ b.finSeq

/-- The position of the FIN is the same, and it is counted. -/
structure SameFin (b c : TcpRxBuffer) : Prop where
  gotFin : c.gotFin = b.gotFin
  finSeq : c.finSeq = b.finSeq

theorem SameFin.refl (b : TcpRxBuffer) : SameFin b b := ⟨rfl, rfl⟩

theorem add_one_ne (a : SequenceNumber32) : a.add 1 ≠ a := by
  intro h
  have value : a.value + 1 = a.value := congrArg SequenceNumber.value h
  exact absurd value (by bv_omega)

theorem finCounted_setFinSequence (b : TcpRxBuffer) (seq : SequenceNumber32) :
    FinCounted (b.setFinSequence seq) := by
  intro _
  change (if b.nextRxSeq = seq then b.nextRxSeq.add 1 else b.nextRxSeq) ≠ seq
  split
  · rename_i reached
    rw [reached]
    exact add_one_ne seq
  · assumption

theorem sameFin_advance {data : List (SequenceNumber32 × Packet)}
    (run : advance profile data b = some c) : SameFin b c := by
  induction data generalizing b with
  | nil => exact Option.some.inj run ▸ SameFin.refl b
  | cons e rest ih =>
    rw [advance] at run
    split at run
    · exact ih run
    · split at run
      · exact Option.some.inj run ▸ SameFin.refl b
      · obtain ⟨sackList, -, run⟩ := bind_returns.mp run
        have same := ih run
        exact ⟨same.gotFin, same.finSeq⟩

theorem sameFin_sackList {condition : Bool} {head tail : SequenceNumber32}
    (run : (if condition then b.updateSackList profile head tail else some b) = some c) :
    SameFin b c := by
  split at run
  · obtain ⟨-, -, run⟩ := bind_returns.mp run
    obtain ⟨blocks, -, run⟩ := bind_returns.mp run
    exact Option.some.inj run ▸ ⟨rfl, rfl⟩
  · exact Option.some.inj run ▸ SameFin.refl b

/-- The end of `store` counts the FIN. -/
theorem store_fin {p : Packet} {seq headSeq tailSeq : SequenceNumber32}
    (run : b.store profile p seq headSeq tailSeq = some c) : SameFin b c ∧ FinCounted c := by
  simp only [store, bind_returns, pure_returns] at run
  obtain ⟨piece, -, -, -, -, -, d, sacked, e, advanced, eq⟩ := run
  have before := sameFin_sackList sacked
  have after := sameFin_advance advanced
  have same : SameFin b e := ⟨after.gotFin.trans before.gotFin, after.finSeq.trans before.finSeq⟩
  rw [← eq]
  refine ⟨⟨same.gotFin, same.finSeq⟩, fun got => ?_⟩
  by_cases reached : e.nextRxSeq = e.finSeq
  · rw [got, reached]
    simp only [beq_self_eq_true, Bool.and_self, if_true]
    exact add_one_ne _
  · rw [if_neg (by simp [reached])]
    exact reached

theorem add_fin {p : Packet} {seq : SequenceNumber32} {added : Bool} (counted : FinCounted b)
    (run : b.add profile p seq = some (added, c)) : SameFin b c ∧ FinCounted c := by
  unfold add at run
  dsimp only at run
  split at run
  · rw [← (Prod.mk.inj (Option.some.inj run)).2]
    exact ⟨⟨rfl, rfl⟩, counted⟩
  · obtain ⟨d, stored, run⟩ := bind_returns.mp run
    obtain rfl := (Prod.mk.inj (Option.some.inj run)).2
    obtain ⟨same, counted⟩ := store_fin stored
    exact ⟨⟨same.gotFin, same.finSeq⟩, counted⟩

end Ns3.TcpRxBuffer

/-!
## The receive buffer without its FIN

Only the end of `Add` looks at the FIN: it counts it when it is the next number expected. Up to
that the buffer does what it would do if no FIN had come.
-/

namespace Ns3.TcpRxBuffer

/-- The same buffer, of which only `m_gotFin` and `m_nextRxSeq` may be others. -/
def retarget (gotFin : Bool) (next : SequenceNumber32) (b : TcpRxBuffer) : TcpRxBuffer :=
  { b with gotFin, nextRxSeq := next }

/-- The buffer that has got no FIN. -/
def forgetFin (b : TcpRxBuffer) : TcpRxBuffer := b.retarget false b.nextRxSeq

/-- The buffer with a FIN, which is counted when it is expected next. -/
def countFin (b : TcpRxBuffer) : TcpRxBuffer :=
  b.retarget true (if b.nextRxSeq = b.finSeq then b.nextRxSeq.add 1 else b.nextRxSeq)

/-- The buffer that has got no FIN, and has not counted it. -/
def withoutFin (b : TcpRxBuffer) : TcpRxBuffer :=
  b.retarget false (if b.finished then b.finSeq else b.nextRxSeq)

section Forget

variable {profile : BuildProfile} {b c : TcpRxBuffer} {data : List (SequenceNumber32 × Packet)}
variable {p : Packet} {seq headSeq tailSeq : SequenceNumber32}

theorem forgetFin_advance (run : advance profile data b = some c) :
    advance profile data b.forgetFin = some c.forgetFin := by
  induction data generalizing b with
  | nil => exact congrArg (Option.map forgetFin) run
  | cons e rest ih =>
    obtain ⟨first, p⟩ := e
    rw [advance] at run ⊢
    have next : b.forgetFin.nextRxSeq = b.nextRxSeq := rfl
    rw [next, sackList]
    by_cases below : first.lt b.nextRxSeq = true
    · rw [if_pos below] at run ⊢
      exact ih run
    · rw [if_neg below] at run ⊢
      by_cases above : first.gt b.nextRxSeq = true
      · rw [if_pos above] at run ⊢
        exact congrArg (Option.map forgetFin) run
      · rw [if_neg above] at run ⊢
        obtain ⟨cleared, drops, run⟩ := bind_returns.mp run
        refine bind_returns.mpr ⟨cleared, drops, ?_⟩
        have rest_ := ih run
        exact rest_

theorem forgetFin_sacked (run : (if headSeq.gt b.nextRxSeq then
      b.updateSackList profile headSeq tailSeq else some b) = some c) :
    (if headSeq.gt b.forgetFin.nextRxSeq then b.forgetFin.updateSackList profile headSeq tailSeq
      else some b.forgetFin) = some c.forgetFin := by
  have next : b.forgetFin.nextRxSeq = b.nextRxSeq := rfl
  rw [next]
  by_cases report : headSeq.gt b.nextRxSeq = true
  · rw [if_pos report] at run ⊢
    obtain ⟨_, above, run⟩ := bind_returns.mp run
    obtain ⟨blocks, merge, run⟩ := bind_returns.mp run
    cases run
    refine bind_returns.mpr ⟨_, above, ?_⟩
    exact bind_returns.mpr ⟨blocks, merge, rfl⟩
  · rw [if_neg report] at run ⊢
    exact congrArg (Option.map forgetFin) run

theorem forgetFin_store (got : b.gotFin = true)
    (run : b.store profile p seq headSeq tailSeq = some c) :
    ∃ e, b.forgetFin.store profile p seq headSeq tailSeq = some e ∧ c = e.countFin := by
  simp only [store, bind_returns, pure_returns] at run
  obtain ⟨piece, cut, _, length, _, absent, d, sacked, e, advanced, rfl⟩ := run
  have before := sameFin_sackList sacked
  have after := sameFin_advance advanced
  have got' : e.gotFin = true := after.gotFin.trans (before.gotFin.trans got)
  refine ⟨e.forgetFin, ?_, ?_⟩
  · simp only [store, bind_returns, pure_returns]
    refine ⟨piece, cut, _, length, _, absent, d.forgetFin, ?_, e.forgetFin, ?_, rfl⟩
    · have same := forgetFin_sacked
        (b := { b with data := OrderedList.set SequenceNumber.lt headSeq piece b.data }) sacked
      exact same
    · have same := forgetFin_advance advanced
      exact same
  · rw [countFin, forgetFin, retarget, retarget]
    simp [got']

/-- `Add` counts the FIN, and else does what it does without. -/
theorem forgetFin_add (got : b.gotFin = true) (counted : FinCounted b) {added : Bool}
    (run : b.add profile p seq = some (added, c)) :
    ∃ e, b.forgetFin.add profile p seq = some (added, e) ∧ c = e.countFin := by
  rw [add] at run
  simp only at run
  split at run
  · next nothing =>
    cases run
    refine ⟨_, if_pos nothing, ?_⟩
    have other := counted got
    simp only [countFin, forgetFin, retarget, other, if_false, got]
    rfl
  · next nothing =>
    obtain ⟨d, stored, run⟩ := bind_returns.mp run
    cases run
    obtain ⟨e, forgot, rfl⟩ := forgetFin_store (by exact got) stored
    refine ⟨e, (if_neg nothing).trans ?_, rfl⟩
    exact bind_returns.mpr ⟨e, forgot, rfl⟩

end Forget

section Extract

variable {profile : BuildProfile} {b c : TcpRxBuffer} {data : List (SequenceNumber32 × Packet)}
variable {gotFin : Bool} {next : SequenceNumber32} {size maxSize : Nat}

theorem createFragment_optimized {p piece : Packet} {start length : Nat}
    (run : p.createFragment profile start length = some piece) :
    p.createFragment .optimized start length = some piece := by
  obtain ⟨_, -, run⟩ := bind_returns.mp run
  cases run
  rfl

theorem retarget_extractLoop {outPkt packet : Packet}
    (run : extractLoop profile data b size outPkt = some (c, packet)) :
    extractLoop .optimized data (b.retarget gotFin next) size outPkt =
      some (c.retarget gotFin next, packet) := by
  induction data generalizing b size outPkt with
  | nil =>
    cases size with
    | zero =>
      cases run
      rfl
    | succ size => cases run
  | cons e rest ih =>
    cases size with
    | zero =>
      cases run
      rfl
    | succ size =>
      obtain ⟨first, p⟩ := e
      obtain ⟨_, -, run⟩ := bind_returns.mp run
      refine bind_returns.mpr ⟨(), rfl, ?_⟩
      by_cases whole : p.length ≤ size + 1
      · rw [if_pos whole] at run ⊢
        have rest_ := ih run
        exact rest_
      · rw [if_neg whole] at run ⊢
        obtain ⟨head, front, run⟩ := bind_returns.mp run
        obtain ⟨tail, back, run⟩ := bind_returns.mp run
        cases run
        refine bind_returns.mpr ⟨head, createFragment_optimized front, ?_⟩
        exact bind_returns.mpr ⟨tail, createFragment_optimized back, rfl⟩

/-- `Extract` looks at the FIN and at the next expected byte in its assertions only. -/
theorem retarget_extract {packet : Option Packet}
    (run : b.extract profile maxSize = some (c, packet)) :
    (b.retarget gotFin next).extract .optimized maxSize =
      some (c.retarget gotFin next, packet) := by
  rw [extract] at run ⊢
  have avail : (b.retarget gotFin next).availBytes = b.availBytes := rfl
  rw [avail]
  by_cases nothing : min maxSize b.availBytes = 0
  · simp only [nothing, if_true] at run ⊢
    cases run
    rfl
  · simp only [nothing, if_false] at run ⊢
    obtain ⟨_, -, run⟩ := bind_returns.mp run
    obtain ⟨⟨d, outPkt⟩, loop, run⟩ := bind_returns.mp run
    cases run
    refine bind_returns.mpr ⟨(), rfl, ?_⟩
    exact bind_returns.mpr ⟨_, retarget_extractLoop loop, rfl⟩

end Extract

end Ns3.TcpRxBuffer
