import Ns3.Internet.TcpTxBuffer.Steps
import Ns3.Internet.TcpTxBuffer.Flags
import Ns3.Library.Run

/-!
# The counters of the scoreboard

`m_sackedOut`, `m_lostOut` and `m_retrans` count the bytes of the items with the
respective flag. Each call that changes flags changes the counters by hand;
`Tracks` says of one loop that a counter follows the flag through it. Counters
wrap, so `Tracks` speaks about their values modulo the word size; the counted
bytes themselves fit into a word.
-/

namespace Ns3.TcpTxBuffer

/-- What an item contributes to the count of a flag. -/
def share (flag : TcpTxItem → Bool) (item : TcpTxItem) : Nat := if flag item then item.size else 0

/-- The bytes of the items with a flag. -/
def flagged (flag : TcpTxItem → Bool) (list : PacketList) : Nat := (list.map (share flag)).sum

/-- No flag of the item is set. -/
def Clear (item : TcpTxItem) : Prop :=
  item.sacked = false ∧ item.lost = false ∧ item.retrans = false
  deriving Decidable

section Flagged

variable {flag : TcpTxItem → Bool} {front rest list : PacketList} {item : TcpTxItem}

@[simp] theorem flagged_nil : flagged flag [] = 0 := rfl

@[simp] theorem flagged_cons :
    flagged flag (item :: rest) = share flag item + flagged flag rest := rfl

@[simp] theorem flagged_append :
    flagged flag (front ++ rest) = flagged flag front + flagged flag rest := by
  simp [flagged]

theorem share_le (flag : TcpTxItem → Bool) (item : TcpTxItem) : share flag item ≤ item.size := by
  unfold share
  split
  · exact le_rfl
  · exact Nat.zero_le _

theorem flagged_le_total (flag : TcpTxItem → Bool) (list : PacketList) :
    flagged flag list ≤ total list := by
  induction list with
  | nil => exact le_refl 0
  | cons item rest ih => exact Nat.add_le_add (share_le flag item) ih

theorem flagged_eq_zero (h : ∀ item ∈ list, flag item = false) : flagged flag list = 0 := by
  induction list with
  | nil => rfl
  | cons item rest ih =>
    obtain ⟨here, others⟩ := List.forall_mem_cons.mp h
    simp [share, here, ih others]

theorem flagged_map {f : TcpTxItem → TcpTxItem} {flag' : TcpTxItem → Bool} (list : PacketList)
    (size : ∀ item, (f item).size = item.size) (agrees : ∀ item, flag (f item) = flag' item) :
    flagged flag (list.map f) = flagged flag' list := by
  have shares : share flag ∘ f = share flag' := by
    funext item
    simp only [Function.comp, share, size, agrees]
  rw [flagged, List.map_map, shares, flagged]

end Flagged

/-- The counter goes from `k` to `k'` as the items go from `list` to `list'`. -/
def Tracks (flag : TcpTxItem → Bool) (k : Nat) (list : PacketList) (k' : Nat)
    (list' : PacketList) : Prop :=
  ∀ others, k = (others + flagged flag list) % 2 ^ 32 →
    k' = (others + flagged flag list') % 2 ^ 32

namespace Tracks

variable {flag : TcpTxItem → Bool} {k k' k'' n : Nat} {list list' list'' rest : PacketList}
variable {item item' : TcpTxItem}

theorem same (h : flagged flag list' = flagged flag list) : Tracks flag k list k list' := by
  intro others eq
  rw [h]
  exact eq

theorem refl (k : Nat) (list : PacketList) : Tracks flag k list k list := same rfl

theorem trans (h : Tracks flag k list k' list') (h' : Tracks flag k' list' k'' list'') :
    Tracks flag k list k'' list'' := fun others eq => h' others (h others eq)

theorem cons (h : Tracks flag k list k' list') (kept : share flag item' = share flag item) :
    Tracks flag k (item :: list) k' (item' :: list') := by
  intro others eq
  rw [flagged_cons, ← Nat.add_assoc] at eq ⊢
  rw [kept]
  exact h _ eq

theorem gain (front rest : PacketList) (gained : share flag item' = share flag item + n) :
    Tracks flag k (front ++ item :: rest) (UInt32.add k n) (front ++ item' :: rest) := by
  rintro others rfl
  rw [UInt32.add_mod]
  simp only [flagged_append, flagged_cons, gained]
  congr 1
  omega

theorem lose (front rest : PacketList) (lost : share flag item = share flag item' + n) :
    Tracks flag k (front ++ item :: rest) (UInt32.sub k n) (front ++ item' :: rest) := by
  rintro others rfl
  have sum : others + flagged flag (front ++ item :: rest) =
      others + flagged flag (front ++ item' :: rest) + n := by
    simp only [flagged_append, flagged_cons, lost]
    omega
  rw [sum, UInt32.sub_mod]

theorem clear (front rest : PacketList) (size : item'.size = item.size)
    (cleared : flag item' = false) :
    Tracks flag k (front ++ item :: rest) (if flag item then UInt32.sub k item.size else k)
      (front ++ item' :: rest) := by
  cases before : flag item with
  | true =>
    rw [if_pos rfl]
    exact lose front rest (by simp [share, before, cleared])
  | false => exact same (by simp [share, before, cleared])

theorem set (front rest : PacketList) (size : item'.size = item.size) (set_ : flag item' = true) :
    Tracks flag k (front ++ item :: rest) (if flag item then k else UInt32.add k item.size)
      (front ++ item' :: rest) := by
  cases before : flag item with
  | true =>
    rw [if_pos rfl]
    exact same (by simp [share, before, set_, size])
  | false => exact gain front rest (by simp [share, before, set_, size])

theorem exact (h : Tracks flag k list k' list') (counted : k = flagged flag list)
    (fits : total list < 2 ^ 32) (fits' : total list' < 2 ^ 32) : k' = flagged flag list' := by
  have small := flagged_le_total flag list
  have small' := flagged_le_total flag list'
  have eq := h 0 (by rw [Nat.zero_add, Nat.mod_eq_of_lt (by omega), counted])
  rwa [Nat.zero_add, Nat.mod_eq_of_lt (by omega)] at eq

end Tracks

end Ns3.TcpTxBuffer
