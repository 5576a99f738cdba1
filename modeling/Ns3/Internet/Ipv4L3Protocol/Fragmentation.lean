import Ns3.Internet.Ipv4L3Protocol.Basic
import Ns3.Library.Span

/-!
# Pieces of a datagram

Whatever path the fragments of a datagram take, they stay pieces of it that lie one behind
the other. Only the last one has the more-fragments flag cleared, and every other one has a
size in units of eight bytes, so that each can be cut again.
-/

namespace Ns3

/-- A datagram as its source sends it, and the MTUs of the links on its path. -/
structure Datagram where
  header : Ipv4Header
  payload : Packet
  mtus : List Nat
  fits : payload.length ≤ 65515
  sized : header.payloadSize = payload.length
  unfragmented : header.fragmentOffset = 0 ∧ header.moreFragments = false
  large : ∀ mtu ∈ mtus, 68 ≤ mtu
  deriving DecidableEq

namespace Fragment

/-- The first byte of the datagram in the fragment. -/
def start (x : Fragment) : Nat := x.header.fragmentOffset

/-- The first byte of the datagram behind the fragment. -/
def stop (x : Fragment) : Nat := x.start + x.packet.length

/-- The bytes of the datagram in the fragment. -/
def span (x : Fragment) : Span := ⟨x.start, x.packet.length⟩

end Fragment

namespace Ipv4L3Protocol

variable {profile : BuildProfile} {d : Datagram} {x : Fragment} {xs ys : List Fragment}
  {lo mid hi : Nat} {more : Bool}

/-- A fragment is a piece of the datagram: it can be put back, and cut again. -/
structure Piece (d : Datagram) (x : Fragment) : Prop where
  header : x.header = { d.header with
    payloadSize := x.packet.length
    moreFragments := x.header.moreFragments
    fragmentOffset := x.header.fragmentOffset }
  stop : x.stop ≤ d.payload.length
  bytes : x.packet = Span.slice d.payload x.span
  aligned : 8 ∣ x.start
  more : x.header.moreFragments = true → 0 < x.packet.length ∧ 8 ∣ x.packet.length

/-- Pieces of a datagram, one behind the other, all but the last with the flag set. -/
inductive Cut (d : Datagram) : Nat → List Fragment → Nat → Bool → Prop
  | last {x : Fragment} (piece : Piece d x) : Cut d x.start [x] x.stop x.header.moreFragments
  | cons {x : Fragment} {xs : List Fragment} {hi : Nat} {more : Bool} (piece : Piece d x)
      (flag : x.header.moreFragments = true) (rest : Cut d x.stop xs hi more) :
      Cut d x.start (x :: xs) hi more

theorem Cut.of_last (piece : Piece d x) (start : x.start = lo) (stop : x.stop = hi)
    (flag : x.header.moreFragments = more) : Cut d lo [x] hi more := by
  subst start stop flag
  exact .last piece

theorem Cut.of_cons (piece : Piece d x) (flag : x.header.moreFragments = true)
    (start : x.start = lo)
    (stop : x.stop = mid) (rest : Cut d mid xs hi more) : Cut d lo (x :: xs) hi more := by
  subst start stop
  exact .cons piece flag rest

theorem Cut.append (first : Cut d lo xs mid true) (second : Cut d mid ys hi more) :
    Cut d lo (xs ++ ys) hi more := by
  generalize flag : true = m at first
  induction first with
  | last piece => exact .cons piece flag.symm second
  | cons piece more _ ih => exact .cons piece more (ih second flag)

theorem Cut.piece (cut : Cut d lo xs hi more) (mem : x ∈ xs) : Piece d x := by
  induction cut with
  | last piece =>
    obtain rfl := List.mem_singleton.mp mem
    exact piece
  | cons piece _ _ ih =>
    obtain rfl | later := List.mem_cons.mp mem
    · exact piece
    · exact ih later

theorem whole_cut (d : Datagram) :
    Cut d 0 [⟨d.payload, d.header⟩] d.payload.length false := by
  obtain ⟨offset, more⟩ := d.unfragmented
  have piece : Piece d ⟨d.payload, d.header⟩ := by
    refine ⟨?_, ?_, ?_, ?_, ?_⟩
    · rw [← d.sized]
    · simp [Fragment.stop, Fragment.start, offset]
    · simp [Span.slice, Fragment.span, Fragment.start, offset]
    · simp [Fragment.start, offset]
    · intro set
      rw [more] at set
      cases set
  refine .of_last piece offset ?_ more
  simp [Fragment.stop, Fragment.start, offset]

/-! ## Links -/

theorem flags_kept (high : Nat) (small : high < 32) (dont more : Bool) :
    let flagsFrag := if dont then high ||| 1 <<< 6 else high
    let flagsFrag := if more then flagsFrag ||| 1 <<< 5 else flagsFrag
    flagsFrag &&& 0x1f = high ∧ (flagsFrag &&& 1 <<< 6 != 0) = dont ∧
      (flagsFrag &&& 1 <<< 5 != 0) = more := by
  have each : ∀ high < 32, ∀ dont more,
      let flagsFrag := if dont then high ||| 1 <<< 6 else high
      let flagsFrag := if more then flagsFrag ||| 1 <<< 5 else flagsFrag
      flagsFrag &&& 0x1f = high ∧ (flagsFrag &&& 1 <<< 6 != 0) = dont ∧
        (flagsFrag &&& 1 <<< 5 != 0) = more := by decide
  exact each high small dont more

/-- A link keeps the header of a fragment. -/
theorem transmit_eq {h : Ipv4Header} (size : h.payloadSize ≤ 65515)
    (offset : h.fragmentOffset ≤ 65515) (aligned : 8 ∣ h.fragmentOffset) : h.transmit = h := by
  have high : (h.fragmentOffset / 8) >>> 8 &&& 0x1f = h.fragmentOffset / 8 / 2 ^ 8 := by
    have masked : (h.fragmentOffset / 8 / 2 ^ 8) &&& 0x1f = h.fragmentOffset / 8 / 2 ^ 8 % 2 ^ 5 :=
      Nat.and_two_pow_sub_one_eq_mod _ 5
    rw [Nat.shiftRight_eq_div_pow, masked]
    omega
  have bits : h.fragmentOffset / 8 &&& 0xff = h.fragmentOffset / 8 % 2 ^ 8 :=
    Nat.and_two_pow_sub_one_eq_mod _ 8
  obtain ⟨kept, dont, more⟩ :=
    flags_kept (h.fragmentOffset / 8 / 2 ^ 8) (by omega) h.dontFragment h.moreFragments
  have joined : (h.fragmentOffset / 8 / 2 ^ 8) <<< 8 ||| h.fragmentOffset / 8 % 2 ^ 8 =
      h.fragmentOffset / 8 := by
    rw [← Nat.shiftLeft_add_eq_or_of_lt (Nat.mod_lt _ (by decide)), Nat.shiftLeft_eq]
    omega
  have whole : uint16 ((h.fragmentOffset / 8) <<< 3) = h.fragmentOffset := by
    rw [uint16, Nat.shiftLeft_eq]
    omega
  have length : uint16 (uint16 (h.payloadSize + 5 * 4) + 2 ^ 16 - 5 * 4) = h.payloadSize := by
    simp only [uint16]
    omega
  simp only [Ipv4Header.transmit, Ipv4Header.serialize, Ipv4Header.deserialize, high,
    bits, kept, dont,
    more, joined, whole, length]

/-! ## Routers -/

theorem slice_slice {stream : List Byte} {s : Span} {offset n : Nat}
    (inside : offset + n ≤ s.length) :
    ((Span.slice stream s).drop offset).take n = Span.slice stream ⟨s.start + offset, n⟩ := by
  rw [Span.slice_drop, Span.slice_take (by simp only; omega)]

theorem setFragmentOffset_eq (h : Ipv4Header) {offset : Nat} (aligned : 8 ∣ offset) :
    h.setFragmentOffset offset = some { h with fragmentOffset := offset } := by
  have low : offset &&& 0x7 = 0 := by
    have masked : offset &&& 0x7 = offset % 2 ^ 3 := Nat.and_two_pow_sub_one_eq_mod _ 3
    omega
  simp [Ipv4Header.setFragmentOffset, low, nsAbortIf]

/-- A part of a piece, as a router sends it. -/
def part (x : Fragment) (offset size : Nat) (flag : Bool) : Fragment where
  packet := Span.slice x.packet ⟨offset, size⟩
  header := { x.header with
    payloadSize := size
    moreFragments := flag
    fragmentOffset := offset + x.start }

theorem Piece.part {offset size : Nat} {flag : Bool} (piece : Piece d x) (aligned : 8 ∣ offset)
    (inside : offset + size ≤ x.packet.length) (more : flag = true → 0 < size ∧ 8 ∣ size) :
    Piece d (part x offset size flag) := by
  have length : (Span.slice x.packet ⟨offset, size⟩).length = size := Span.length_slice inside
  refine ⟨?_, ?_, ?_, ?_, ?_⟩
  · rw [Ipv4L3Protocol.part, length, piece.header]
  · have stop := piece.stop
    simp only [Fragment.stop, Fragment.start, Ipv4L3Protocol.part, length] at stop ⊢
    omega
  · have bytes := piece.bytes
    simp only [Fragment.span, Fragment.start, Ipv4L3Protocol.part, length]
    conv_lhs => rw [bytes, Span.slice, slice_slice inside]
    rw [Nat.add_comm]
    rfl
  · exact Nat.dvd_add aligned piece.aligned
  · rw [Ipv4L3Protocol.part, length]
    exact more

theorem part_length {offset size : Nat} (flag : Bool) (inside : offset + size ≤ x.packet.length) :
    (part x offset size flag).packet.length = size :=
  Span.length_slice inside

/-- One round of the loop cuts off a part with the flag set, or ends with the last part. -/
theorem fragmentFrom_spec (profile : BuildProfile) {fragmentSize : Nat} (piece : Piece d x)
    (units : 8 ∣ fragmentSize)
    (pos : 0 < fragmentSize) (small : fragmentSize ≤ 65535) (rounds offset : Nat)
    (aligned : 8 ∣ offset)
    (inside : offset = 0 ∨ offset < x.packet.length) (enough : x.packet.length < offset + rounds) :
    ∃ xs, fragmentFrom profile x.packet x.header fragmentSize rounds offset = some xs ∧
      Cut d (offset + x.start) xs x.stop x.header.moreFragments := by
  have fits := d.fits
  have stop := piece.stop
  simp only [Fragment.stop] at stop
  induction rounds generalizing offset with
  | zero => omega
  | succ rounds ih =>
    have offset_ : uint16 (offset + x.header.fragmentOffset) = offset + x.start :=
      uint16_of_lt (by simp only [Fragment.start] at stop; omega)
    have aligned' : 8 ∣ offset + x.start := Nat.dvd_add aligned piece.aligned
    have add : UInt32.add offset fragmentSize = offset + fragmentSize := UInt32.add_of_lt (by omega)
    rw [fragmentFrom, add, offset_]
    simp only [setFragmentOffset_eq _ aligned', some_bind, pure_some]
    by_cases larger : x.packet.length > offset + fragmentSize
    · have within : offset + fragmentSize ≤ x.packet.length := Nat.le_of_lt larger
      have bytes : x.packet.createFragment profile offset fragmentSize =
          some (part x offset fragmentSize true).packet :=
        Packet.createFragment_of_le within (by omega)
      have next : uint16 (offset + fragmentSize) = offset + fragmentSize := uint16_of_lt (by omega)
      have size : uint16 fragmentSize = fragmentSize := uint16_of_lt (by omega)
      obtain ⟨xs, run, rest⟩ := ih (offset + fragmentSize) (Nat.dvd_add aligned units)
        (.inr larger) (by omega)
      refine ⟨part x offset fragmentSize true :: xs, ?_, ?_⟩
      · rw [if_pos larger]
        simp only [bytes, next, size, run]
        rfl
      · refine .of_cons (piece.part aligned within fun _ => ⟨pos, units⟩) rfl rfl ?_ rest
        rw [Fragment.stop, part_length true within]
        simp only [Fragment.start, part]
        omega
    · have size : UInt32.sub x.packet.length offset = x.packet.length - offset :=
        UInt32.sub_of_le (by omega) (by omega)
      have within : offset + (x.packet.length - offset) ≤ x.packet.length := by omega
      have bytes : x.packet.createFragment profile offset (x.packet.length - offset) =
          some (part x offset (x.packet.length - offset) x.header.moreFragments).packet :=
        Packet.createFragment_of_le within (by omega)
      have size' : uint16 (x.packet.length - offset) = x.packet.length - offset :=
        uint16_of_lt (by omega)
      have again (flag : x.header.moreFragments = true) : 0 < x.packet.length - offset ∧
          8 ∣ x.packet.length - offset := by
        obtain ⟨nonempty, units⟩ := piece.more flag
        exact ⟨by omega, Nat.dvd_sub units aligned⟩
      refine ⟨[part x offset (x.packet.length - offset) x.header.moreFragments], ?_, ?_⟩
      · rw [if_neg larger]
        simp only [size, bytes, size', Ipv4Header.isLastFragment, Bool.not_not]
        rfl
      · refine .of_last (piece.part aligned within again) rfl ?_ rfl
        rw [Fragment.stop, part_length _ within]
        simp only [Fragment.start, Fragment.stop, part]
        omega

/-- The size of fragments is a positive number of units of eight bytes. -/
theorem fragmentSize_eq {mtu : Nat} (large : 68 ≤ mtu) (small : mtu < 2 ^ 32) :
    UInt32.sub mtu (5 * 4) &&& UInt32.sub (2 ^ 32 - 1) 0x7 = (mtu - 20) / 8 * 8 := by
  have sub : UInt32.sub mtu (5 * 4) = mtu - 20 := UInt32.sub_of_le (by omega) small
  have mask : UInt32.sub (2 ^ 32 - 1) 0x7 = (2 ^ 29 - 1) <<< 3 := by decide
  have quotient : (mtu - 20) / 8 * 8 = (mtu - 20) >>> 3 <<< 3 := by
    rw [Nat.shiftLeft_eq, Nat.shiftRight_eq_div_pow]
  rw [sub, mask, quotient]
  apply Nat.eq_of_testBit_eq
  intro i
  simp only [Nat.testBit_and, Nat.testBit_shiftLeft, Nat.testBit_two_pow_sub_one,
    Nat.testBit_shiftRight]
  by_cases low : 3 ≤ i
  · rw [Nat.add_sub_cancel' low]
    by_cases high : i < 32
    · have inside : i - 3 < 29 := by omega
      simp [low, inside]
    · have beyond : (mtu - 20).testBit i = false := by
        apply Nat.testBit_lt_two_pow
        have grows : 2 ^ 32 ≤ 2 ^ i := Nat.pow_le_pow_right (by decide) (by omega)
        omega
      simp [beyond]
  · simp [low]

theorem doFragmentation_spec (profile : BuildProfile) {mtu : Nat} (piece : Piece d x)
    (large : 68 ≤ mtu)
    (beyond : x.packet.length + 20 > mtu) :
    ∃ xs, doFragmentation profile x.packet x.header mtu = some xs ∧
      Cut d x.start xs x.stop x.header.moreFragments := by
  have fits := d.fits
  have stop := piece.stop
  simp only [Fragment.stop] at stop
  have run := fragmentFrom_spec profile piece (Nat.dvd_mul_left 8 ((mtu - 20) / 8))
    (by omega) (by omega) (x.packet.length + 1) 0 (Nat.dvd_zero 8)
    (.inl rfl) (by omega)
  rw [Nat.zero_add] at run
  simp only [doFragmentation, Ipv4Header.serializedSize,
    fragmentSize_eq large (by omega : mtu < 2 ^ 32), decide_true, nsAssert_true, some_bind]
  exact run

theorem sendRealOut_spec (profile : BuildProfile) {mtu : Nat} (piece : Piece d x)
    (large : 68 ≤ mtu) :
    ∃ xs, sendRealOut profile mtu x.packet x.header = some xs ∧
      Cut d x.start xs x.stop x.header.moreFragments := by
  by_cases beyond : x.packet.length + x.header.serializedSize > mtu
  · obtain ⟨xs, run, cut⟩ := doFragmentation_spec profile piece large beyond
    exact ⟨xs, (if_pos beyond).trans run, cut⟩
  · exact ⟨[x], if_neg beyond, .last piece⟩

theorem Cut.transmit (cut : Cut d lo xs hi more) :
    (xs.map fun y => (⟨y.packet, y.header.transmit⟩ : Fragment)) = xs := by
  have same (y : Fragment) (mem : y ∈ xs) : (⟨y.packet, y.header.transmit⟩ : Fragment) = y := by
    have piece := cut.piece mem
    have fits := d.fits
    have stop := piece.stop
    simp only [Fragment.stop, Fragment.start] at stop
    have size : y.header.payloadSize = y.packet.length := congrArg (·.payloadSize) piece.header
    rw [transmit_eq (by omega) (by omega) piece.aligned]
  exact (List.map_congr_left same).trans (List.map_id' xs)

/-- A link keeps the fragments pieces that lie one behind the other. -/
theorem cross_spec (profile : BuildProfile) {mtu : Nat} (cut : Cut d lo xs hi more)
    (large : 68 ≤ mtu) :
    ∃ ys, cross profile mtu xs = some ys ∧ Cut d lo ys hi more := by
  induction cut with
  | last piece =>
    obtain ⟨ys, sent, cut⟩ := sendRealOut_spec profile piece large
    refine ⟨ys, ?_, cut⟩
    simp [cross, sent, cut.transmit]
  | cons piece flag rest ih =>
    obtain ⟨ys, sent, cut⟩ := sendRealOut_spec profile piece large
    obtain ⟨zs, others, later⟩ := ih
    rw [flag] at cut
    refine ⟨ys ++ zs, ?_, cut.append later⟩
    simp [cross, sent, others, cut.transmit]

theorem route_spec (profile : BuildProfile) {mtus : List Nat} (cut : Cut d lo xs hi more)
    (large : ∀ mtu ∈ mtus, 68 ≤ mtu) :
    ∃ ys, route profile mtus xs = some ys ∧ Cut d lo ys hi more := by
  induction mtus generalizing xs with
  | nil => exact ⟨xs, rfl, cut⟩
  | cons mtu mtus ih =>
    obtain ⟨ys, first, cut'⟩ := cross_spec profile cut (large mtu List.mem_cons_self)
    obtain ⟨zs, rest, cut''⟩ := ih cut' fun m mem => large m (List.mem_cons_of_mem _ mem)
    exact ⟨zs, by simp [route, first, rest], cut''⟩

/-- The fragments of a datagram at its destination. -/
def fragments (profile : BuildProfile) (d : Datagram) : List Fragment :=
  (route profile d.mtus [⟨d.payload, d.header⟩]).getD []

theorem fragments_spec (profile : BuildProfile) (d : Datagram) :
    route profile d.mtus [⟨d.payload, d.header⟩] = some (fragments profile d) ∧
      Cut d 0 (fragments profile d) d.payload.length false := by
  obtain ⟨xs, run, cut⟩ := route_spec profile (whole_cut d) d.large
  rw [fragments, run]
  exact ⟨rfl, cut⟩

end Ipv4L3Protocol

end Ns3
