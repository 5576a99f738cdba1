import Ns3.Internet.Ipv4StaticRouting.Basic

/-!
# Longest prefix and least metric

The walk over the table keeps a route whose prefix is the longest so far and whose metric is the
least among those. It stops at the first host route, whatever its metric.
-/

namespace Ns3.Ipv4StaticRouting

open List Option

variable {Device : Type} (ipv4 : Ipv4 Device) (dest : Ipv4Address)
  (oif : Option Device)

/-- The length of the prefix of an entry. -/
def masklen (j : Entry) : Nat := j.1.destNetworkMask.getPrefixLength

/-- The entry matches the destination and the output device. -/
def Matches (j : Entry) : Prop :=
  j.1.destNetworkMask.isMatch dest j.1.dest = true ∧
    ∀ d ∈ oif, d = ipv4.getNetDevice j.1.interface

/-- A match with the longest prefix, and with the least metric among the matches of its length. -/
structure Best (routes : NetworkRoutes) (j : Entry) : Prop where
  mem : j ∈ routes
  isMatch : Matches ipv4 dest oif j
  longest : ∀ k ∈ routes, Matches ipv4 dest oif k → masklen k ≤ masklen j
  least : ∀ k ∈ routes, Matches ipv4 dest oif k → masklen k = masklen j → j.2 ≤ k.2

/-- A matching host route. -/
def HostMatch (j : Entry) : Prop := Matches ipv4 dest oif j ∧ masklen j = 32

variable {ipv4 dest oif} {done rest routes : NetworkRoutes} {longestMask : Nat}
  {shortestMetric : BitVec 32} {rtentry : Option (Ipv4Route Device)} {j h : Entry}

/-- What the walk keeps of the entries behind it, none of which is a host route that matches. -/
structure Kept (ipv4 : Ipv4 Device) (dest : Ipv4Address) (oif : Option Device)
    (done : NetworkRoutes) (longestMask : Nat) (shortestMetric : BitVec 32)
    (rtentry : Option (Ipv4Route Device)) : Prop where
  noHost : ∀ k ∈ done, ¬ HostMatch ipv4 dest oif k
  none_ : rtentry = none → longestMask = 0 ∧ shortestMetric = 0xffffffff ∧
    ∀ k ∈ done, ¬ Matches ipv4 dest oif k
  some_ : ∀ route ∈ rtentry, ∃ j, Best ipv4 dest oif done j ∧ route = routeFrom ipv4 j.1 ∧
    longestMask = masklen j ∧ shortestMetric = j.2

theorem kept_nil : Kept ipv4 dest oif [] 0 0xffffffff none where
  noHost := nofun
  none_ := fun _ => ⟨rfl, rfl, nofun⟩
  some_ := fun _ mem => by cases mem

theorem masklen_le (j : Entry) : masklen j ≤ 32 := Ipv4Mask.getPrefixLength_le _

/-- A best match behind the walk stays one when the next entry is no better. -/
theorem Best.concat (best : Best ipv4 dest oif done j)
    (shorter : Matches ipv4 dest oif h → masklen h ≤ masklen j)
    (worse : Matches ipv4 dest oif h → masklen h = masklen j → j.2 ≤ h.2) :
    Best ipv4 dest oif (done ++ [h]) j where
  mem := mem_append_left _ best.mem
  isMatch := best.isMatch
  longest := fun k mem isMatch => by
    obtain mem | mem := mem_append.mp mem
    · exact best.longest k mem isMatch
    · obtain rfl := mem_singleton.mp mem
      exact shorter isMatch
  least := fun k mem isMatch => by
    obtain mem | mem := mem_append.mp mem
    · exact best.least k mem isMatch
    · obtain rfl := mem_singleton.mp mem
      exact worse isMatch

/-- The walk passes an entry that is no better than what it keeps. -/
theorem Kept.pass (kept : Kept ipv4 dest oif done longestMask shortestMetric rtentry)
    (noHost : ¬ HostMatch ipv4 dest oif h)
    (some_ : Matches ipv4 dest oif h → rtentry ≠ none)
    (shorter : Matches ipv4 dest oif h → masklen h ≤ longestMask)
    (worse : Matches ipv4 dest oif h → masklen h = longestMask → shortestMetric ≤ h.2) :
    Kept ipv4 dest oif (done ++ [h]) longestMask shortestMetric rtentry where
  noHost := fun k mem => by
    obtain mem | mem := mem_append.mp mem
    · exact kept.noHost k mem
    · exact mem_singleton.mp mem ▸ noHost
  none_ := fun none_ => by
    obtain ⟨longest, shortest, nothing⟩ := kept.none_ none_
    refine ⟨longest, shortest, fun k mem isMatch => ?_⟩
    obtain mem | mem := mem_append.mp mem
    · exact nothing k mem isMatch
    · exact some_ (mem_singleton.mp mem ▸ isMatch) none_
  some_ := fun route found => by
    obtain ⟨j, best, same, rfl, rfl⟩ := kept.some_ route found
    exact ⟨j, best.concat shorter worse, same, rfl, rfl⟩

/-- The walk keeps an entry that is as good as what it kept. -/
theorem Kept.take (kept : Kept ipv4 dest oif done longestMask shortestMetric rtentry)
    (noHost : ¬ HostMatch ipv4 dest oif h) (isMatch : Matches ipv4 dest oif h)
    (longer : longestMask ≤ masklen h) (better : longestMask = masklen h → h.2 ≤ shortestMetric) :
    Kept ipv4 dest oif (done ++ [h]) (masklen h) h.2 (some (routeFrom ipv4 h.1)) where
  noHost := fun k mem => by
    obtain mem | mem := mem_append.mp mem
    · exact kept.noHost k mem
    · exact mem_singleton.mp mem ▸ noHost
  none_ := fun none_ => by cases none_
  some_ := fun route found => by
    cases found
    have before : ∀ k ∈ done, Matches ipv4 dest oif k →
        masklen k ≤ masklen h ∧ (masklen k = masklen h → h.2 ≤ k.2) := by
      intro k mem isMatch'
      cases kind : rtentry with
      | none => exact absurd isMatch' ((kept.none_ kind).2.2 k mem)
      | some route =>
        obtain ⟨j, best, -, rfl, rfl⟩ := kept.some_ route kind
        have shorter := best.longest k mem isMatch'
        refine ⟨Nat.le_trans shorter longer, fun same => ?_⟩
        have equal : masklen j = masklen h := Nat.le_antisymm longer (same ▸ shorter)
        exact BitVec.le_trans (better equal) (best.least k mem isMatch' (same.trans equal.symm))
    refine ⟨h, ⟨mem_append_right _ (mem_singleton_self h), isMatch, ?_, ?_⟩, rfl, rfl,
      rfl⟩
    · intro k mem isMatch'
      obtain mem | mem := mem_append.mp mem
      · exact (before k mem isMatch').1
      · exact Nat.le_of_eq (congrArg _ (mem_singleton.mp mem))
    · intro k mem isMatch' same
      obtain mem | mem := mem_append.mp mem
      · exact (before k mem isMatch').2 same
      · obtain rfl := mem_singleton.mp mem
        exact BitVec.le_refl _

theorem Kept.longest_lt (kept : Kept ipv4 dest oif done longestMask shortestMetric rtentry) :
    longestMask < 32 := by
  cases kind : rtentry with
  | none =>
    obtain ⟨rfl, -⟩ := kept.none_ kind
    decide
  | some route =>
    obtain ⟨j, best, -, rfl, -⟩ := kept.some_ route kind
    refine Nat.lt_of_le_of_ne (masklen_le j) fun host => ?_
    exact kept.noHost j best.mem ⟨best.isMatch, host⟩

/-! ## The walk -/

variable [DecidableEq Device]

instance (j : Entry) : Decidable (Matches ipv4 dest oif j) :=
  instDecidableAnd

instance (j : Entry) : Decidable (HostMatch ipv4 dest oif j) :=
  instDecidableAnd

/-- The first host route in the table that matches. -/
def firstHost (ipv4 : Ipv4 Device) (dest : Ipv4Address) (oif : Option Device)
    (routes : NetworkRoutes) : Option Entry :=
  routes.find? fun j => HostMatch ipv4 dest oif j

theorem firstHost_spec (first : firstHost ipv4 dest oif routes = some h) :
    h ∈ routes ∧ HostMatch ipv4 dest oif h := by
  have isMatch := find?_some first
  exact ⟨mem_of_find?_eq_some first, of_decide_eq_true isMatch⟩

/-- The first matching host route leads where one with the least metric leads. -/
def FirstHostLeast (ipv4 : Ipv4 Device) (dest : Ipv4Address) (oif : Option Device)
    (routes : NetworkRoutes) : Prop :=
  ∀ h ∈ firstHost ipv4 dest oif routes, ∃ j ∈ routes, HostMatch ipv4 dest oif j ∧
    (∀ k ∈ routes, HostMatch ipv4 dest oif k → j.2 ≤ k.2) ∧ routeFrom ipv4 j.1 = routeFrom ipv4 h.1

/-- The lookup finds nothing if and only if nothing matches, and otherwise a best match. -/
def LongestPrefixMatch (ipv4 : Ipv4 Device) (dest : Ipv4Address) (oif : Option Device)
    (profile : BuildProfile) (routes : NetworkRoutes) : Prop :=
  ∃ rtentry, lookupStatic ipv4 profile routes dest oif = some rtentry ∧
    (rtentry = none ↔ ∀ j ∈ routes, ¬ Matches ipv4 dest oif j) ∧
    ∀ route ∈ rtentry, ∃ j, Best ipv4 dest oif routes j ∧ route = routeFrom ipv4 j.1

/-- The walk skips an entry that does not match. -/
theorem lookupFrom_skip (other : ¬ Matches ipv4 dest oif h) :
    lookupFrom ipv4 dest oif longestMask shortestMetric rtentry (h :: rest) =
      lookupFrom ipv4 dest oif longestMask shortestMetric rtentry rest := by
  obtain ⟨j, metric⟩ := h
  rw [lookupFrom]
  by_cases isMatch : j.destNetworkMask.isMatch dest j.dest = true
  · have device : oif.any (· ≠ ipv4.getNetDevice j.interface) = true := by
      cases oif with
      | none => exact absurd ⟨isMatch, fun d mem => by cases mem⟩ other
      | some d =>
        refine decide_eq_true fun same => other ⟨isMatch, fun d' mem => ?_⟩
        exact (some.inj mem) ▸ same
    simp only [isMatch, Bool.not_true, Bool.false_eq_true, if_false, device, if_true]
  · simp only [isMatch, Bool.not_false, if_true]

/-- What the walk does with an entry that matches. -/
theorem lookupFrom_matches (isMatch : Matches ipv4 dest oif h) :
    lookupFrom ipv4 dest oif longestMask shortestMetric rtentry (h :: rest) =
      if masklen h < longestMask ∨ masklen h = longestMask ∧ shortestMetric < h.2 then
        lookupFrom ipv4 dest oif longestMask shortestMetric rtentry rest
      else if masklen h = 32 then some (routeFrom ipv4 h.1)
      else lookupFrom ipv4 dest oif (masklen h) h.2 (some (routeFrom ipv4 h.1)) rest := by
  obtain ⟨address, device⟩ := isMatch
  have device : oif.any (· ≠ ipv4.getNetDevice h.1.interface) = false := by
    cases oif with
    | none => rfl
    | some d => exact decide_eq_false (not_not.mpr (device d rfl))
  have length : h.1.destNetworkMask.getPrefixLength = masklen h := rfl
  rw [lookupFrom.eq_def]
  simp only [address, Bool.not_true, Bool.false_eq_true, if_false, device, length]
  by_cases shorter : masklen h < longestMask
  · rw [if_pos shorter, if_pos (.inl shorter)]
  · rw [if_neg shorter]
    by_cases longer : masklen h > longestMask
    · -- the metric is reset, so every metric is good enough
      have reset : ¬ h.2 > 0xffffffff := (BitVec.not_allOnes_lt : ¬ BitVec.allOnes 32 < h.2)
      have other : ¬ (masklen h < longestMask ∨
          masklen h = longestMask ∧ shortestMetric < h.2) := by
        omega
      rw [if_pos longer, if_neg reset, if_neg other]
    · have same : masklen h = longestMask := by omega
      rw [if_neg longer, same]
      simp

/-- One step of the walk over an entry that is no matching host route. -/
theorem Kept.step (kept : Kept ipv4 dest oif done longestMask shortestMetric rtentry)
    (noHost : ¬ HostMatch ipv4 dest oif h) :
    ∃ longestMask' shortestMetric' rtentry',
      Kept ipv4 dest oif (done ++ [h]) longestMask' shortestMetric' rtentry' ∧
        ∀ rest, lookupFrom ipv4 dest oif longestMask shortestMetric rtentry (h :: rest) =
          lookupFrom ipv4 dest oif longestMask' shortestMetric' rtentry' rest := by
  by_cases isMatch : Matches ipv4 dest oif h
  · by_cases worse : masklen h < longestMask ∨ masklen h = longestMask ∧ shortestMetric < h.2
    · refine ⟨_, _, _, kept.pass noHost (fun _ none_ => ?_) (fun _ => by omega) (fun _ same => ?_),
        fun rest => (lookupFrom_matches isMatch).trans (if_pos worse)⟩
      · obtain ⟨rfl, rfl, -⟩ := kept.none_ none_
        obtain shorter | ⟨-, metric⟩ := worse
        · exact Nat.not_lt_zero _ shorter
        · exact BitVec.not_allOnes_lt metric
      · obtain shorter | ⟨-, metric⟩ := worse
        · omega
        · exact BitVec.le_of_lt metric
    · have length : masklen h ≠ 32 := fun host => noHost ⟨isMatch, host⟩
      obtain ⟨longer, better⟩ := not_or.mp worse
      refine ⟨_, _, _, kept.take noHost isMatch (Nat.not_lt.mp longer) fun same => ?_,
        fun rest => ?_⟩
      · exact BitVec.not_lt.mp fun metric => better ⟨same.symm, metric⟩
      · exact (lookupFrom_matches isMatch).trans ((if_neg worse).trans (if_neg length))
  · exact ⟨_, _, _, kept.pass noHost (absurd · isMatch) (absurd · isMatch) (absurd · isMatch),
      fun rest => lookupFrom_skip isMatch⟩

/-- The walk finds the first matching host route. -/
theorem lookupFrom_host (kept : Kept ipv4 dest oif done longestMask shortestMetric rtentry)
    (first : firstHost ipv4 dest oif rest = some h) :
    lookupFrom ipv4 dest oif longestMask shortestMetric rtentry rest =
      some (routeFrom ipv4 h.1) := by
  induction rest generalizing done longestMask shortestMetric rtentry with
  | nil => cases first
  | cons k rest ih =>
    rw [firstHost, find?_cons] at first
    by_cases host : HostMatch ipv4 dest oif k
    · simp only [host, decide_true] at first
      cases first
      have longer := kept.longest_lt
      obtain ⟨isMatch, length⟩ := host
      rw [lookupFrom_matches isMatch, if_neg (by omega), if_pos length]
    · simp only [host, decide_false] at first
      obtain ⟨_, _, _, kept, same⟩ := kept.step host
      exact (same rest).trans (ih kept first)

/-- Without a matching host route, it keeps a best match to the end. -/
theorem lookupFrom_kept (kept : Kept ipv4 dest oif done longestMask shortestMetric rtentry)
    (noHost : firstHost ipv4 dest oif rest = none) :
    ∃ longestMask' shortestMetric', Kept ipv4 dest oif (done ++ rest) longestMask' shortestMetric'
      (lookupFrom ipv4 dest oif longestMask shortestMetric rtentry rest) := by
  induction rest generalizing done longestMask shortestMetric rtentry with
  | nil => exact ⟨_, _, (append_nil done).symm ▸ kept⟩
  | cons k rest ih =>
    rw [firstHost, find?_cons] at noHost
    by_cases host : HostMatch ipv4 dest oif k
    · simp only [host, decide_true] at noHost
      cases noHost
    · simp only [host, decide_false] at noHost
      obtain ⟨_, _, _, kept, same⟩ := kept.step host
      obtain ⟨longest, shortest, all⟩ := ih kept noHost
      rw [append_assoc] at all
      exact ⟨longest, shortest, same rest ▸ all⟩

/-! ## The lookup -/

/-- The lookup is the longest prefix match with the least metric if and only if the first matching
host route leads where one with the least metric leads. -/
theorem longestPrefixMatch_iff (ipv4 : Ipv4 Device) (profile : BuildProfile)
    (routes : NetworkRoutes) (dest : Ipv4Address) (oif : Option Device)
    (unicast : dest.isLocalMulticast = false) :
    LongestPrefixMatch ipv4 dest oif profile routes ↔ FirstHostLeast ipv4 dest oif routes := by
  have lookup : lookupStatic ipv4 profile routes dest oif =
      some (lookupFrom ipv4 dest oif 0 0xffffffff none routes) := by
    rw [lookupStatic, unicast]
    rfl
  cases first : firstHost ipv4 dest oif routes with
  | none =>
    refine iff_of_true ⟨_, lookup, ?_⟩ fun h mem => absurd (first.symm.trans mem) (by simp)
    obtain ⟨longest, shortest, kept⟩ := lookupFrom_kept kept_nil first
    rw [List.nil_append] at kept
    refine ⟨⟨fun none_ => (kept.none_ none_).2.2, fun nothing => ?_⟩, fun route found => ?_⟩
    · cases kind : lookupFrom ipv4 dest oif 0 0xffffffff none routes with
      | none => rfl
      | some route =>
        obtain ⟨j, best, -⟩ := kept.some_ route kind
        exact absurd best.isMatch (nothing j best.mem)
    · obtain ⟨j, best, same, -⟩ := kept.some_ route found
      exact ⟨j, best, same⟩
  | some h =>
    obtain ⟨mem, host⟩ := firstHost_spec first
    have found := lookup.trans (congrArg some (lookupFrom_host kept_nil first))
    constructor
    · rintro ⟨rtentry, returns, -, best⟩ h' first'
      obtain rfl := Option.some.inj (first.symm.trans first')
      obtain rfl := Option.some.inj (found.symm.trans returns)
      obtain ⟨j, best, same⟩ := best _ rfl
      have length : masklen j = 32 :=
        Nat.le_antisymm (masklen_le j) (host.2 ▸ best.longest h mem host.1)
      refine ⟨j, best.mem, ⟨best.isMatch, length⟩, fun k mem' host' => ?_, same.symm⟩
      exact best.least k mem' host'.1 (host'.2.trans length.symm)
    · intro leads
      obtain ⟨j, mem', host', least, same⟩ := leads h first
      have best : Best ipv4 dest oif routes j :=
        { mem := mem'
          isMatch := host'.1
          longest := fun k _ _ => host'.2 ▸ masklen_le k
          least := fun k mem isMatch length => least k mem ⟨isMatch, length.trans host'.2⟩ }
      refine ⟨_, found, iff_of_false (Option.some_ne_none _) fun nothing => ?_,
        fun route mem => ?_⟩
      · exact nothing h mem host.1
      · cases mem
        exact ⟨j, best, same.symm⟩

/-- A node whose devices are numbered as its interfaces are. -/
def numbered : Ipv4 (BitVec 32) where
  getNetDevice := id
  sourceAddressSelection := fun interface _ => interface
  getInterfaceForDevice := id
  firstAddress := id

/-- A network route and a default route, and no route to a host. -/
theorem longestPrefixMatch_network :
    LongestPrefixMatch numbered 0x0a000105 none .debug
      (setDefaultRoute
        (addNetworkRouteTo [] 0x0a000100 0xffffff00 0x0a000101 1 7) 0x0a000201 2 0) :=
  (longestPrefixMatch_iff numbered .debug _ 0x0a000105 none (by decide)).mpr fun h first => by
    have nothing : firstHost numbered 0x0a000105 none (setDefaultRoute
        (addNetworkRouteTo [] 0x0a000100 0xffffff00 0x0a000101 1 7) 0x0a000201 2 0) = none := by
      decide
    cases nothing.symm.trans first

/-- Two routes to one host, the first with the larger metric. -/
def twoHosts : NetworkRoutes :=
  addHostRouteTo (addHostRouteTo [] 0x0a000001 0x0a000101 1 10) 0x0a000001 0x0a000201 2 1

/-- The lookup stops at the first of them. -/
theorem twoHosts_first :
    ∃ routes, Run.exec (step .debug) [] [.addHostRouteTo 0x0a000001 0x0a000101 1 10,
        .addHostRouteTo 0x0a000001 0x0a000201 2 1] = some routes ∧
      ¬ LongestPrefixMatch numbered 0x0a000001 none .debug routes := by
  refine ⟨twoHosts, rfl, ?_⟩
  rintro ⟨rtentry, returns, -, best⟩
  have first : lookupStatic numbered .debug twoHosts 0x0a000001 none =
      some (some ⟨0x0a000001, 1, 0x0a000101, 1⟩) := by decide
  obtain rfl := Option.some.inj (first.symm.trans returns)
  obtain ⟨j, best, same⟩ := best _ rfl
  have mem : j ∈ [(⟨0x0a000001, Ipv4Mask.getOnes, 0x0a000101, 1⟩, 10),
      (⟨0x0a000001, Ipv4Mask.getOnes, 0x0a000201, 2⟩, 1)] := best.mem
  obtain rfl | mem := List.mem_cons.mp mem
  · have least := best.least (⟨0x0a000001, Ipv4Mask.getOnes, 0x0a000201, 2⟩, 1) (by decide)
      (by decide) rfl
    exact absurd least (by decide)
  · obtain rfl := List.mem_singleton.mp mem
    exact absurd (congrArg Ipv4Route.gateway same) (by decide)

end Ns3.Ipv4StaticRouting
