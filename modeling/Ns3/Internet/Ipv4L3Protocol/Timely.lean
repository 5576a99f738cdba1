import Ns3.Internet.Ipv4L3Protocol.Timeouts
import Mathlib.Data.List.Nodup

/-!
# Every incomplete datagram has its timeout

Each datagram of which fragments are kept has one entry in the list of timeouts, and each entry
belongs to such a datagram. The entries stand in the order of their expiry times, and a scheduled
event of the simulator comes no later than the first of them, although completed datagrams leave
events behind that come too early.
-/

namespace Ns3.Ipv4L3Protocol

open List Option

variable (profile : BuildProfile) {timeout : Int} {s t : Ipv4L3Protocol}

/-- The datagrams and the entries of the list belong together, and the list is in order. -/
structure Paired (timeout : Int) (s : Ipv4L3Protocol) : Prop where
  held : ∀ key f, s.mapFragments key = some f →
    ∃ e ∈ s.timeoutEventList, e.key = key ∧ e.node = f.timeoutIter
  owned : ∀ e ∈ s.timeoutEventList, ∃ f, s.mapFragments e.key = some f ∧ f.timeoutIter = e.node
  nodes : (s.timeoutEventList.map TimeoutEntry.node).Nodup
  fresh : ∀ e ∈ s.timeoutEventList, e.node < s.nextNode
  sorted : s.timeoutEventList.Pairwise fun e e' => e.expiry ≤ e'.expiry
  current : ∀ e ∈ s.timeoutEventList, s.now ≤ e.expiry ∧ e.expiry ≤ s.now + timeout
  scheduled : ∀ time ∈ s.scheduled, s.now ≤ time

/-- Each datagram has a fragment. -/
def Filled (s : Ipv4L3Protocol) : Prop :=
  ∀ key f, s.mapFragments key = some f → f.fragments ≠ []

/-- A scheduled event comes no later than any entry. -/
def Watched (s : Ipv4L3Protocol) : Prop :=
  ∀ e ∈ s.timeoutEventList, ∃ time ∈ s.scheduled, time ≤ e.expiry

/-- The invariant between two events. -/
structure Timely (timeout : Int) (s : Ipv4L3Protocol) : Prop extends Paired timeout s where
  filled : Filled s
  watched : Watched s

/-! ## Entries -/

theorem Paired.eq_of_node {e e' : TimeoutEntry} (paired : Paired timeout s)
    (mem : e ∈ s.timeoutEventList) (mem' : e' ∈ s.timeoutEventList) (same : e.node = e'.node) :
    e = e' :=
  inj_on_of_nodup_map paired.nodes mem mem' same

theorem Paired.eq_of_key {e e' : TimeoutEntry} (paired : Paired timeout s)
    (mem : e ∈ s.timeoutEventList) (mem' : e' ∈ s.timeoutEventList) (same : e.key = e'.key) :
    e = e' := by
  obtain ⟨f, has, iter⟩ := paired.owned e mem
  obtain ⟨f', has', iter'⟩ := paired.owned e' mem'
  obtain rfl := some.inj (has.symm.trans (same ▸ has'))
  exact paired.eq_of_node mem mem' (iter.symm.trans iter')

/-- A datagram and its entry are taken out together. -/
theorem Paired.remove {e : TimeoutEntry} (paired : Paired timeout s)
    (mem : e ∈ s.timeoutEventList) :
    Paired timeout { s with
      mapFragments := Function.update s.mapFragments e.key none
      timeoutEventList := s.timeoutEventList.filter (·.node ≠ e.node) } where
  held := by
    intro key f has
    change Function.update s.mapFragments e.key none key = some f at has
    have other : key ≠ e.key := by
      rintro rfl
      rw [Function.update_self] at has
      cases has
    rw [Function.update_of_ne other] at has
    obtain ⟨e', mem', rfl, iter⟩ := paired.held key f has
    refine ⟨e', mem_filter.mpr ⟨mem', decide_eq_true ?_⟩, rfl, iter⟩
    intro same
    exact other (congrArg TimeoutEntry.key (paired.eq_of_node mem' mem same))
  owned := by
    intro e' left
    obtain ⟨mem', apart⟩ := mem_filter.mp left
    have other : e'.key ≠ e.key := by
      intro same
      exact of_decide_eq_true apart (congrArg TimeoutEntry.node (paired.eq_of_key mem' mem same))
    obtain ⟨f, has, iter⟩ := paired.owned e' mem'
    exact ⟨f, (Function.update_of_ne other none s.mapFragments).trans has, iter⟩
  nodes := paired.nodes.sublist (filter_sublist.map _)
  fresh := fun e' left => paired.fresh e' (mem_filter.mp left).1
  sorted := paired.sorted.sublist filter_sublist
  current := fun e' left => paired.current e' (mem_filter.mp left).1
  scheduled := paired.scheduled

theorem Filled.remove (filled : Filled s) {key : FragmentKey} {t : Ipv4L3Protocol}
    (removed : t.mapFragments = Function.update s.mapFragments key none) : Filled t := by
  intro key' f has
  rw [removed] at has
  by_cases same : key' = key
  · rw [same, Function.update_self] at has
    cases has
  · rw [Function.update_of_ne same] at has
    exact filled key' f has

/-! ## Packets -/

theorem createFragment_isSome {p : Packet} {start length : Nat}
    (inside : UInt32.add start length ≤ p.length) :
    ∃ q, p.createFragment profile start length = some q := by
  rw [Packet.createFragment, decide_eq_true inside, nsAssert_true]
  exact ⟨_, rfl⟩

theorem add_sub_le (length start : Nat) :
    UInt32.add start (UInt32.sub length start) ≤ length := by
  rw [UInt32.add, UInt32.sub]
  omega

theorem Fragments.partialFrom_isSome (its : List (Packet × Nat)) (p : Packet) (last : Nat) :
    ∃ q, Fragments.partialFrom profile p last its = some q := by
  induction its generalizing p last with
  | nil => exact ⟨p, rfl⟩
  | cons it rest ih =>
    rw [Fragments.partialFrom]
    split
    · obtain ⟨q, cut⟩ := createFragment_isSome profile
        (add_sub_le it.1.length (last - it.2))
      simp only [cut, some_bind]
      exact ih _ _
    · exact ih _ _

theorem Fragments.getPartialPacket_isSome {f : Fragments} (filled : f.fragments ≠ []) :
    ∃ q, f.getPartialPacket profile = some q := by
  rw [Fragments.getPartialPacket]
  split
  case h_1 none_ => exact absurd none_ filled
  case h_2 it rest _ =>
    split
    · exact ⟨_, rfl⟩
    · exact Fragments.partialFrom_isSome profile _ _ _

theorem Fragments.appendFrom_isSome (its : List (Packet × Nat)) (p : Packet) :
    ∃ q, Fragments.appendFrom profile p its = some q := by
  induction its generalizing p with
  | nil => exact ⟨p, rfl⟩
  | cons it rest ih =>
    rw [Fragments.appendFrom]
    split
    · simp only
      split
      · rename_i longer
        have inside : UInt32.add (uint16 p.length - it.2)
            (it.1.length - (uint16 p.length - it.2)) ≤ it.1.length := by
          rw [UInt32.add]
          omega
        obtain ⟨q, cut⟩ := createFragment_isSome profile inside
        simp only [cut, some_bind]
        exact ih _
      · exact ih _
    · exact ih _

theorem Fragments.getPacket_isSome {f : Fragments} (filled : f.fragments ≠ []) :
    ∃ q, f.getPacket profile = some q := by
  rw [Fragments.getPacket]
  split
  case h_1 none_ => exact absurd none_ filled
  case h_2 it rest _ => exact Fragments.appendFrom_isSome profile _ _

theorem Fragments.addFragment_ne_nil (f : Fragments) (packet : Packet) (offset : Nat)
    (more : Bool) : (f.addFragment packet offset more).fragments ≠ [] :=
  append_ne_nil_of_right_ne_nil _ (cons_ne_nil _ _)

/-! ## `ProcessFragment` -/

/-- The entry of a datagram stays when its fragments change. -/
theorem Paired.replace {key : FragmentKey} {f g : TimedFragments}
    (paired : Paired timeout { s with mapFragments := Function.update s.mapFragments key (some f) })
    (iter : g.timeoutIter = f.timeoutIter) :
    Paired timeout { s with mapFragments := Function.update s.mapFragments key (some g) } where
  held := by
    intro key' g' has
    change Function.update s.mapFragments key (some g) key' = some g' at has
    by_cases same : key' = key
    · rw [same, Function.update_self] at has
      cases has
      rw [iter, same]
      exact paired.held key f (Function.update_self _ _ _)
    · rw [Function.update_of_ne same] at has
      exact paired.held key' g' ((Function.update_of_ne same _ _).trans has)
  owned := by
    intro e mem
    change ∃ f, Function.update s.mapFragments key (some g) e.key = some f ∧ _
    obtain ⟨f', has, iter'⟩ := paired.owned e mem
    change Function.update s.mapFragments key (some f) e.key = some f' at has
    by_cases same : e.key = key
    · rw [same, Function.update_self] at has ⊢
      cases has
      exact ⟨g, rfl, iter.trans iter'⟩
    · rw [Function.update_of_ne same] at has ⊢
      exact ⟨f', has, iter'⟩
  nodes := paired.nodes
  fresh := paired.fresh
  sorted := paired.sorted
  current := paired.current
  scheduled := paired.scheduled

theorem Filled.insert {key : FragmentKey} {g : TimedFragments} {t : Ipv4L3Protocol}
    (filled : Filled s) (some_ : g.fragments ≠ [])
    (inserted : t.mapFragments = Function.update s.mapFragments key (some g)) : Filled t := by
  intro key' f has
  rw [inserted] at has
  by_cases same : key' = key
  · rw [same, Function.update_self] at has
    cases has
    exact some_
  · rw [Function.update_of_ne same] at has
    exact filled key' f has

variable {header : Ipv4Header}

/-- From the fragments that a datagram has, or from none and a new entry. -/
theorem collectFragment_timely {packet : Packet} {f : TimedFragments}
    (paired : Paired timeout
      { s with mapFragments := Function.update s.mapFragments header.key (some f) })
    (filled : Filled s) (watched : Watched s) :
    ∃ t, collectFragment profile packet header f s = some t ∧ Timely timeout t := by
  have nonempty := f.addFragment_ne_nil packet header.fragmentOffset (!header.isLastFragment)
  rw [collectFragment]
  split
  · obtain ⟨whole, got⟩ := Fragments.getPacket_isSome profile nonempty
    obtain ⟨e, mem, key, node⟩ := paired.held header.key f (Function.update_self _ _ _)
    have removed := paired.remove mem
    have erased : eraseTimeout f.timeoutIter s = some { s with
        timeoutEventList := s.timeoutEventList.filter (·.node ≠ f.timeoutIter) } := by
      refine if_pos (List.any_eq_true.mpr ⟨e, mem, decide_eq_true node⟩)
    simp only [got, erased, some_bind, pure_some]
    rw [key, node, Function.update_idem] at removed
    refine ⟨_, rfl, { removed with filled := filled.remove rfl, watched := ?_ }⟩
    intro e left
    exact watched e (mem_filter.mp left).1
  · have replaced := paired.replace (f := f)
      (g := { toFragments := f.addFragment packet header.fragmentOffset (!header.isLastFragment)
              timeoutIter := f.timeoutIter }) rfl
    exact ⟨_, rfl, { replaced with filled := filled.insert nonempty rfl, watched }⟩

theorem schedule_eq {delay : Int} (nonneg : 0 ≤ delay) :
    schedule profile delay s = some { s with scheduled := s.scheduled ++ [s.now + delay] } := by
  rw [schedule, decide_eq_true nonneg, nsAssert_true]
  rfl

/-- Before a new entry is added there is an event that comes no later than it expires. -/
theorem scheduleFirst_eq (timely : Timely timeout s) (nonneg : 0 ≤ timeout) :
    ∃ times, scheduleFirst profile timeout s = some { s with scheduled := times } ∧
      (∀ time ∈ times, s.now ≤ time) ∧ (∃ time ∈ times, time ≤ s.now + timeout) ∧
      Watched { s with scheduled := times } := by
  rw [scheduleFirst]
  split
  case isTrue empty =>
    have none_ := List.isEmpty_iff.mp empty
    refine ⟨s.scheduled ++ [s.now + timeout], schedule_eq profile nonneg, ?_, ?_, ?_⟩
    · intro time mem
      obtain before | new := mem_append.mp mem
      · exact timely.scheduled time before
      · rw [mem_singleton.mp new]
        omega
    · exact ⟨s.now + timeout, mem_append_right _ (mem_singleton_self _), Int.le_rfl⟩
    · intro e mem
      exact absurd mem (none_ ▸ not_mem_nil)
  case isFalse some_ =>
    obtain ⟨e, mem⟩ := exists_mem_of_ne_nil _ fun none_ => some_ (List.isEmpty_iff.mpr none_)
    obtain ⟨time, scheduled, before⟩ := timely.watched e mem
    refine ⟨s.scheduled, rfl, timely.scheduled, ⟨time, scheduled, ?_⟩, timely.watched⟩
    exact Int.le_trans before (timely.current e mem).2

/-- A new datagram and its entry at the end of the list. -/
theorem Paired.add {e : TimeoutEntry} {times : List Int} (paired : Paired timeout s)
    (new : s.mapFragments e.key = none) (node : e.node = s.nextNode)
    (expiry : e.expiry = s.now + timeout) (nonneg : 0 ≤ timeout)
    (later : ∀ time ∈ times, s.now ≤ time) :
    Paired timeout { s with
      mapFragments := Function.update s.mapFragments e.key (some { timeoutIter := e.node })
      timeoutEventList := s.timeoutEventList ++ [e]
      nextNode := s.nextNode + 1
      scheduled := times } where
  held := by
    intro key f has
    change Function.update s.mapFragments e.key _ key = some f at has
    by_cases same : key = e.key
    · rw [same, Function.update_self] at has
      cases has
      exact ⟨e, mem_append_right _ (mem_singleton_self e), same.symm, rfl⟩
    · rw [Function.update_of_ne same] at has
      obtain ⟨e', mem, key, iter⟩ := paired.held key f has
      exact ⟨e', mem_append_left _ mem, key, iter⟩
  owned := by
    intro e' mem
    obtain before | added := mem_append.mp mem
    · obtain ⟨f, has, iter⟩ := paired.owned e' before
      refine ⟨f, (Function.update_of_ne ?_ _ _).trans has, iter⟩
      intro same
      rw [same, new] at has
      cases has
    · obtain rfl := mem_singleton.mp added
      exact ⟨_, Function.update_self _ _ _, rfl⟩
  nodes := by
    rw [map_append, map_singleton, nodup_append_comm]
    refine nodup_cons.mpr ⟨fun mem => ?_, paired.nodes⟩
    obtain ⟨e', before, same⟩ := List.mem_map.mp mem
    have fresh := paired.fresh e' before
    omega
  fresh := by
    intro e' mem
    obtain before | added := mem_append.mp mem
    · exact Nat.lt_succ_of_lt (paired.fresh e' before)
    · obtain rfl := mem_singleton.mp added
      exact Nat.lt_succ_of_le (Nat.le_of_eq node)
  sorted := by
    refine pairwise_append.mpr ⟨paired.sorted, pairwise_singleton _ _, ?_⟩
    intro e' before e'' added
    obtain rfl := mem_singleton.mp added
    rw [expiry]
    exact (paired.current e' before).2
  current := by
    intro e' mem
    obtain before | added := mem_append.mp mem
    · exact paired.current e' before
    · obtain rfl := mem_singleton.mp added
      change s.now ≤ e'.expiry ∧ e'.expiry ≤ s.now + timeout
      omega
  scheduled := later

theorem setTimeout_paired {key : FragmentKey} (header : Ipv4Header) (iif : Nat)
    (timely : Timely timeout s) (new : s.mapFragments key = none) (nonneg : 0 ≤ timeout) :
    ∃ iter t, setTimeout profile timeout key header iif s = some (iter, t) ∧
      Paired timeout
        { t with mapFragments :=
          Function.update t.mapFragments key (some { timeoutIter := iter }) } ∧
      t.mapFragments = s.mapFragments ∧ Watched t := by
  obtain ⟨times, scheduled, later, first, watched⟩ :=
    scheduleFirst_eq profile timely nonneg
  rw [setTimeout, scheduled]
  refine ⟨_, _, rfl, ?_, rfl, ?_⟩
  · exact timely.toPaired.add
      (e := { node := s.nextNode, expiry := s.now + timeout, key, header, iif }) new rfl rfl nonneg
      later
  · intro e mem
    obtain before | added := mem_append.mp mem
    · exact watched e before
    · rw [mem_singleton.mp added]
      exact first

theorem processTimed_timely {packet : Packet} {iif : Nat}
    (timely : Timely timeout s) (nonneg : 0 ≤ timeout) :
    ∃ t, processTimed profile timeout packet header iif s = some t ∧ Timely timeout t := by
  rw [processTimed]
  cases has : s.mapFragments header.key with
  | none =>
    obtain ⟨iter, t, set, paired, same, watched⟩ :=
      setTimeout_paired profile header iif timely has nonneg
    simp only [set, some_bind]
    refine collectFragment_timely profile paired ?_ watched
    intro key f has
    exact timely.filled key f (same ▸ has)
  | some f =>
    refine collectFragment_timely profile ?_ timely.filled timely.watched
    rw [← has, Function.update_eq_self]
    exact timely.toPaired

/-- The fragments without their iterators. -/
def untimed (w : FragmentKey → Option TimedFragments) : MapFragments :=
  fun key => (w key).map TimedFragments.toFragments

theorem untimed_update (w : FragmentKey → Option TimedFragments) (key : FragmentKey)
    (f : Option TimedFragments) : untimed (Function.update w key f) =
      Function.update (untimed w) key (f.map TimedFragments.toFragments) := by
  funext key'
  by_cases same : key' = key
  · rw [same, untimed, Function.update_self, Function.update_self]
  · rw [untimed, Function.update_of_ne same, Function.update_of_ne same, untimed]

theorem eraseTimeout_frame {iter : Nat} (erased : eraseTimeout iter s = some t) :
    t.mapFragments = s.mapFragments ∧ t.reports = s.reports := by
  rw [eraseTimeout] at erased
  split at erased
  · cases erased
    exact ⟨rfl, rfl⟩
  · cases erased

theorem collectFragment_untimed {packet : Packet} {f : TimedFragments}
    (had : (untimed s.mapFragments header.key).getD {} = f.toFragments)
    (returns : collectFragment profile packet header f s = some t) :
    ∃ out, processFragment profile (untimed s.mapFragments) packet header =
        some (out, untimed t.mapFragments) ∧
      t.reports = s.reports ++ (out.map Report.complete).toList := by
  rw [collectFragment] at returns
  rw [processFragment]
  simp only [had] at returns ⊢
  split at returns
  case isTrue entire =>
    simp only [bind_returns, pure_returns] at returns
    obtain ⟨whole, got, u, erased, rfl⟩ := returns
    obtain ⟨map, reports⟩ := eraseTimeout_frame erased
    refine ⟨some whole, ?_, congrArg (· ++ _) reports⟩
    simp only [entire, ↓reduceIte, got, some_bind, pure_some, map, untimed_update]
    rfl
  case isFalse more =>
    cases returns
    refine ⟨none, ?_, (append_nil _).symm⟩
    rw [if_neg more, untimed_update]
    rfl

theorem scheduleFirst_frame (scheduled : scheduleFirst profile timeout s = some t) :
    t.mapFragments = s.mapFragments ∧ t.reports = s.reports := by
  rw [scheduleFirst] at scheduled
  split at scheduled
  · obtain ⟨_, -, set⟩ := bind_returns.mp scheduled
    cases set
    exact ⟨rfl, rfl⟩
  · cases scheduled
    exact ⟨rfl, rfl⟩

theorem setTimeout_frame {key : FragmentKey} {iif iter : Nat}
    (set : setTimeout profile timeout key header iif s = some (iter, t)) :
    t.mapFragments = s.mapFragments ∧ t.reports = s.reports := by
  obtain ⟨u, scheduled, added⟩ := bind_returns.mp set
  obtain ⟨map, reports⟩ := scheduleFirst_frame profile scheduled
  cases added
  exact ⟨map, reports⟩

/-- Apart from the timeouts this is `ProcessFragment` as it is above. -/
theorem processTimed_untimed {packet : Packet} {iif : Nat}
    (returns : processTimed profile timeout packet header iif s = some t) :
    ∃ out, processFragment profile (untimed s.mapFragments) packet header =
        some (out, untimed t.mapFragments) ∧
      t.reports = s.reports ++ (out.map Report.complete).toList := by
  rw [processTimed] at returns
  cases has : s.mapFragments header.key with
  | none =>
    simp only [has, bind_returns] at returns
    obtain ⟨⟨iter, u⟩, set, collected⟩ := returns
    obtain ⟨map, reports⟩ := setTimeout_frame profile set
    rw [← map, ← reports]
    refine collectFragment_untimed profile ?_ collected
    rw [untimed, map, has]
    rfl
  | some f =>
    rw [has] at returns
    refine collectFragment_untimed profile ?_ returns
    rw [untimed, has]
    rfl

/-! ## `HandleTimeout` -/

section

variable (paired : Paired timeout s) (filled : Filled s)
include paired filled

/-- The fragments under the key of an entry are there, and are dropped with their entry. -/
theorem handleFragmentsTimeout_eq {e : TimeoutEntry} (mem : e ∈ s.timeoutEventList) :
    ∃ reports, handleFragmentsTimeout profile e.key e.header e.iif s =
      some { s with
        mapFragments := Function.update s.mapFragments e.key none
        reports := s.reports ++ reports } := by
  obtain ⟨f, has, _⟩ := paired.owned e mem
  obtain ⟨packet, got⟩ := Fragments.getPartialPacket_isSome profile (filled e.key f has)
  rw [handleFragmentsTimeout, has]
  simp only [some_bind, got, pure_some, append_assoc]
  exact ⟨_, rfl⟩

/-- The loop takes out the entries that expire now. -/
theorem expireFrom_eq :
    ∃ t, expireFrom profile s.timeoutEventList s = some t ∧ Paired timeout t ∧ Filled t ∧
      t.now = s.now ∧ t.scheduled = s.scheduled := by
  generalize entries : s.timeoutEventList = l
  induction l generalizing s with
  | nil =>
    refine ⟨_, rfl, ?_, filled, rfl, rfl⟩
    rw [← entries]
    exact paired
  | cons e rest ih =>
    rw [expireFrom]
    split
    · have mem : e ∈ s.timeoutEventList := entries ▸ mem_cons_self
      obtain ⟨reports, dropped⟩ := handleFragmentsTimeout_eq profile paired filled mem
      simp only [dropped, some_bind]
      have removed := paired.remove mem
      have tail : s.timeoutEventList.filter (·.node ≠ e.node) = rest := by
        have nodes := paired.nodes
        rw [entries, map_cons, nodup_cons] at nodes
        rw [entries, filter_cons_of_neg (by simp), filter_eq_self]
        intro e' mem'
        refine decide_eq_true ?_
        intro same
        exact nodes.1 (same ▸ List.mem_map_of_mem mem')
      rw [tail] at removed
      exact ih (s := { s with
          mapFragments := Function.update s.mapFragments e.key none
          reports := s.reports ++ reports
          timeoutEventList := rest })
        { removed with } (filled.remove rfl) rfl
    · refine ⟨_, rfl, ?_, filled, rfl, rfl⟩
      rw [← entries]
      exact paired

/-- The next event is scheduled for the entry that is now the first. -/
theorem handleTimeout_timely : ∃ t, handleTimeout profile s = some t ∧ Timely timeout t := by
  obtain ⟨t, expired, paired, filled, -, -⟩ := expireFrom_eq profile paired filled
  rw [handleTimeout, expired]
  simp only [some_bind]
  split
  case h_1 none_ =>
    refine ⟨t, rfl, { paired with filled, watched := ?_ }⟩
    intro e mem
    exact absurd mem (none_ ▸ not_mem_nil)
  case h_2 first rest entries =>
    have mem : first ∈ t.timeoutEventList := entries ▸ mem_cons_self
    have future : 0 ≤ first.expiry - t.now := Int.sub_nonneg_of_le (paired.current first mem).1
    have sum : t.now + (first.expiry - t.now) = first.expiry := by omega
    refine ⟨_, schedule_eq profile future, { paired with scheduled := ?_, filled, watched := ?_ }⟩
    · intro time mem'
      obtain before | new := mem_append.mp mem'
      · exact paired.scheduled time before
      · rw [mem_singleton.mp new, sum]
        exact (paired.current first mem).1
    · intro e mem'
      refine ⟨_, mem_append_right _ (mem_singleton_self _), ?_⟩
      rw [sum]
      have sorted := paired.sorted
      rw [entries] at sorted mem'
      obtain rfl | behind := mem_cons.mp mem'
      · exact Int.le_rfl
      · exact (pairwise_cons.mp sorted).1 e behind

end

/-! ## Runs -/

theorem Timely.advance {e : Event} (timely : Timely timeout s) (next : Next s e) :
    Timely timeout { s with now := e.time } := by
  obtain ⟨forward, first, -⟩ := next
  refine { timely with current := ?_, scheduled := first }
  intro entry mem
  obtain ⟨time, scheduled, before⟩ := timely.watched entry mem
  have reached := first time scheduled
  have upper := (timely.current entry mem).2
  change e.time ≤ entry.expiry ∧ entry.expiry ≤ e.time + timeout
  omega

theorem handle_timely {e : Event} (nonneg : 0 ≤ timeout) (timely : Timely timeout s)
    (next : Next s e) : ∃ t, handle profile timeout s e = some t ∧ Timely timeout t := by
  have advanced := timely.advance next
  cases e with
  | fragment time packet header iif => exact processTimed_timely profile advanced nonneg
  | timeout time =>
    refine handleTimeout_timely profile { advanced.toPaired with scheduled := ?_ }
      advanced.filled
    intro later mem
    exact advanced.scheduled later (mem_of_mem_erase mem)
  | other time => exact ⟨_, rfl, advanced⟩

theorem timely_initial : Timely timeout {} where
  held := fun _ _ has => absurd has.symm (some_ne_none _)
  owned := nofun
  nodes := nodup_nil
  fresh := nofun
  sorted := List.Pairwise.nil
  current := nofun
  scheduled := nofun
  filled := fun _ _ has => absurd has.symm (some_ne_none _)
  watched := nofun

/-- Each incomplete datagram has exactly one entry, to which its iterator points and which has not
expired before, and every entry belongs to one. The entries are in the order of their expiry
times, and no event is scheduled for a time that is past. -/
structure Matched (s : Ipv4L3Protocol) : Prop where
  one : ∀ key f, s.mapFragments key = some f →
    ∃ e, s.timeoutEventList.filter (·.key = key) = [e] ∧
      s.timeoutEventList.filter (·.node = f.timeoutIter) = [e] ∧ s.now ≤ e.expiry
  none : ∀ key, s.mapFragments key = none → s.timeoutEventList.filter (·.key = key) = []
  sorted : s.timeoutEventList.Pairwise fun e e' => e.expiry ≤ e'.expiry
  scheduled : ∀ time ∈ s.scheduled, s.now ≤ time

theorem filter_eq_singleton {l : List TimeoutEntry} {e : TimeoutEntry}
    {p : TimeoutEntry → Bool} (nodup : l.Nodup) (mem : e ∈ l)
    (only : ∀ e' ∈ l, p e' = true ↔ e' = e) : l.filter p = [e] := by
  have same : l.filter p = l.filter (· == e) := by
    refine filter_congr fun e' mem' => ?_
    rw [Bool.eq_iff_iff, only e' mem', beq_iff_eq]
  rw [same, filter_beq, count_eq_one_of_mem nodup mem]
  rfl

theorem Timely.matched (timely : Timely timeout s) : Matched s where
  one := by
    intro key f has
    obtain ⟨e, mem, rfl, iter⟩ := timely.held key f has
    have nodup := List.Nodup.of_map _ timely.nodes
    refine ⟨e, filter_eq_singleton nodup mem ?_, filter_eq_singleton nodup mem ?_,
      (timely.current e mem).1⟩
    · intro e' mem'
      rw [decide_eq_true_eq]
      exact ⟨timely.eq_of_key mem' mem, congrArg TimeoutEntry.key⟩
    · intro e' mem'
      rw [decide_eq_true_eq, ← iter]
      exact ⟨timely.eq_of_node mem' mem, congrArg TimeoutEntry.node⟩
  none := by
    intro key none_
    rw [filter_eq_nil_iff]
    intro e mem same
    obtain ⟨f, has, _⟩ := timely.owned e mem
    rw [of_decide_eq_true same, none_] at has
    cases has
  sorted := timely.sorted
  scheduled := timely.scheduled

end Ns3.Ipv4L3Protocol
