import Mathlib.Tactic.TypeStar

/-!
# Runs of a partial step function

A program is driven by a list of calls. Each call is a partial function on
states: `none` says the call stops the program (a failed assertion, an abort,
or a memory access outside any object). A run is the fold of its calls, and
every invariant of a run is proved once here, by induction on the calls.

`Meets step C s ops` says that every call of the run from `s` finds the
condition `C` true of its own entry state. The condition may thus speak about
the state a call is made in, as preconditions of callers do.
-/

namespace Run

open List Option

variable {σ op : Type*}

/-- Execute the calls in order, stopping at the first one that does not return. -/
def exec (step : σ → op → Option σ) : σ → List op → Option σ
  | s, [] => some s
  | s, o :: ops => (step s o).bind fun t => exec step t ops

/-- Every call of the run meets its condition in the state it is made in. -/
def Meets (step : σ → op → Option σ) (C : σ → op → Prop) : σ → List op → Prop
  | _, [] => True
  | s, o :: ops => C s o ∧ ∀ t, step s o = some t → Meets step C t ops

/-- The property holds in every state of the run. -/
def Always (step : σ → op → Option σ) (P : σ → Prop) : σ → List op → Prop
  | s, [] => P s
  | s, o :: ops => P s ∧ ∀ t, step s o = some t → Always step P t ops

variable {step : σ → op → Option σ} {P : σ → Prop} {C D : σ → op → Prop} {I : σ → Prop}

@[simp] theorem exec_nil (s : σ) : exec step s [] = some s := rfl

theorem exec_cons (s : σ) (o : op) (ops : List op) :
    exec step s (o :: ops) = (step s o).bind fun t => exec step t ops := rfl

theorem exec_cons_eq_some {s t : σ} {o : op} {ops : List op} :
    exec step s (o :: ops) = some t ↔ ∃ m, step s o = some m ∧ exec step m ops = some t := by
  rw [exec_cons, bind_eq_some_iff]

@[simp] theorem meets_nil (s : σ) : Meets step C s [] := trivial

variable {s : σ}

theorem meets_cons {o : op} {ops : List op} :
    Meets step C s (o :: ops) ↔ C s o ∧ ∀ t, step s o = some t → Meets step C t ops := Iff.rfl

theorem Meets.cons {s m : σ} {o : op} {ops : List op} (here : C s o) (returns : step s o = some m)
    (rest : Meets step C m ops) : Meets step C s (o :: ops) := by
  refine ⟨here, fun t ht => ?_⟩
  obtain rfl := some.inj (returns.symm.trans ht)
  exact rest

theorem Meets.after {s m : σ} {first later : List op} (meets : Meets step C s (first ++ later))
    (run : exec step s first = some m) : Meets step C m later := by
  induction first generalizing s with
  | nil =>
    cases run
    exact meets
  | cons o first ih =>
    obtain ⟨n, call, rest⟩ := exec_cons_eq_some.mp run
    exact ih (meets.2 n call) rest

/-- Executable form of `Meets` for a decidable condition. -/
def check (step : σ → op → Option σ) (C : σ → op → Prop) [∀ s o, Decidable (C s o)] :
    σ → List op → Bool
  | _, [] => true
  | s, o :: ops => decide (C s o) && match step s o with
    | none => true
    | some t => check step C t ops

theorem check_eq_true [∀ s o, Decidable (C s o)] {ops : List op} :
    check step C s ops = true ↔ Meets step C s ops := by
  induction ops generalizing s with
  | nil => simp [check]
  | cons o ops ih =>
    rw [check, meets_cons, Bool.and_eq_true, decide_eq_true_eq]
    cases returns : step s o with
    | none => simp
    | some t => simp [ih]

instance [∀ s o, Decidable (C s o)] (s : σ) (ops : List op) : Decidable (Meets step C s ops) :=
  decidable_of_iff _ check_eq_true

theorem Meets.mono {ops : List op} (h : Meets step C s ops)
    (imp : ∀ s o, C s o → D s o) : Meets step D s ops := by
  induction ops generalizing s with
  | nil => trivial
  | cons o ops ih => exact ⟨imp s o h.1, fun t ht => ih (h.2 t ht)⟩

theorem Meets.and {ops : List op} (meets : Meets step C s ops)
    (others : Meets step D s ops) : Meets step (fun s o => C s o ∧ D s o) s ops := by
  induction ops generalizing s with
  | nil => trivial
  | cons o ops ih =>
    exact ⟨⟨meets.1, others.1⟩, fun t returns => ih (meets.2 t returns) (others.2 t returns)⟩

theorem Meets.and_forall {E : op → Prop} {ops : List op} (meets : Meets step C s ops)
    (each : ∀ o ∈ ops, E o) : Meets step (fun s o => C s o ∧ E o) s ops := by
  induction ops generalizing s with
  | nil => trivial
  | cons o ops ih =>
    refine ⟨⟨meets.1, each o mem_cons_self⟩, fun t returns => ?_⟩
    exact ih (meets.2 t returns) fun o' mem => each o' (mem_cons_of_mem o mem)

theorem Meets.of_forall (h : ∀ s o, C s o) (s : σ) (ops : List op) : Meets step C s ops := by
  induction ops generalizing s with
  | nil => trivial
  | cons o ops ih => exact ⟨h s o, fun t _ => ih t⟩

theorem Meets.of_calls {E : op → Prop} {ops : List op} (each : ∀ o ∈ ops, E o) (s : σ) :
    Meets step (fun _ o => E o) s ops :=
  ((Meets.of_forall (fun _ _ => trivial) s ops).and_forall each).mono fun _ _ both => both.2

theorem invariant {s t : σ} {ops : List op} (start : I s) (meets : Meets step C s ops)
    (preserved : ∀ s o t, I s → C s o → step s o = some t → I t)
    (run : exec step s ops = some t) : I t := by
  induction ops generalizing s with
  | nil =>
    rw [exec_nil, some.injEq] at run
    exact run ▸ start
  | cons o ops ih =>
    obtain ⟨m, first, rest⟩ := exec_cons_eq_some.mp run
    exact ih (preserved s o m start meets.1 first) (meets.2 m first) rest

theorem Meets.of_invariant {ops : List op} (start : I s) (meets : Meets step C s ops)
    (preserved : ∀ s o t, I s → C s o → step s o = some t → I t)
    (holds : ∀ s o, I s → C s o → D s o) : Meets step D s ops := by
  induction ops generalizing s with
  | nil => trivial
  | cons o ops ih =>
    refine ⟨holds s o start meets.1, fun t returns => ?_⟩
    exact ih (preserved s o t start meets.1 returns) (meets.2 t returns)

theorem Always.here {ops : List op} (h : Always step P s ops) : P s := by
  cases ops with
  | nil => exact h
  | cons o ops => exact h.1

theorem Always.last {s t : σ} {ops : List op} (h : Always step P s ops)
    (run : exec step s ops = some t) : P t := by
  induction ops generalizing s with
  | nil =>
    cases run
    exact h
  | cons o ops ih =>
    obtain ⟨m, first, rest⟩ := exec_cons_eq_some.mp run
    exact ih (h.2 m first) rest

/-- The exact form: where a call keeps a property if and only if it meets the
condition, the runs with the property in every state are those whose calls all
meet the condition. The calls may be restricted to a domain. -/
theorem always_iff_meets_within {ops : List op} (start : I s)
    (domain : Meets step D s ops) (holds : ∀ s, I s → P s)
    (preserved : ∀ s o t, I s → D s o → C s o → step s o = some t → I t)
    (needed : ∀ s o, I s → D s o → (∀ t, step s o = some t → P t) → C s o) :
    Always step P s ops ↔ Meets step C s ops := by
  induction ops generalizing s with
  | nil => exact ⟨fun _ => trivial, fun _ => holds s start⟩
  | cons o ops ih =>
    obtain ⟨inside, later⟩ := domain
    constructor
    · rintro ⟨-, always⟩
      have condition := needed s o start inside fun t returns => (always t returns).here
      refine ⟨condition, fun t returns => ?_⟩
      have next := preserved s o t start inside condition returns
      exact (ih next (later t returns)).mp (always t returns)
    · rintro ⟨condition, meets⟩
      refine ⟨holds s start, fun t returns => ?_⟩
      have next := preserved s o t start inside condition returns
      exact (ih next (later t returns)).mpr (meets t returns)

theorem always_iff_meets {ops : List op} (start : I s) (holds : ∀ s, I s → P s)
    (preserved : ∀ s o t, I s → C s o → step s o = some t → I t)
    (needed : ∀ s o, I s → (∀ t, step s o = some t → P t) → C s o) :
    Always step P s ops ↔ Meets step C s ops :=
  always_iff_meets_within start (Meets.of_forall (fun _ _ => trivial) s ops) holds
    (fun s o t i _ => preserved s o t i) (fun s o i _ => needed s o i)

theorem total {ops : List op} (start : I s) (meets : Meets step C s ops)
    (returns : ∀ s o, I s → C s o → ∃ t, step s o = some t ∧ I t) :
    ∃ t, exec step s ops = some t ∧ I t := by
  induction ops generalizing s with
  | nil => exact ⟨s, rfl, start⟩
  | cons o ops ih =>
    obtain ⟨m, first, inv⟩ := returns s o start meets.1
    obtain ⟨t, rest, final⟩ := ih inv (meets.2 m first)
    exact ⟨t, exec_cons_eq_some.mpr ⟨m, first, rest⟩, final⟩

theorem meets_of_exec {s t : σ} {ops : List op} (start : I s) (domain : Meets step D s ops)
    (preserved : ∀ s o t, I s → D s o → step s o = some t → I t)
    (needed : ∀ s o t, I s → D s o → step s o = some t → C s o)
    (run : exec step s ops = some t) : Meets step C s ops := by
  induction ops generalizing s with
  | nil => trivial
  | cons o ops ih =>
    obtain ⟨m, first, rest⟩ := exec_cons_eq_some.mp run
    have next := preserved s o m start domain.1 first
    exact .cons (needed s o m start domain.1 first) first (ih next (domain.2 m first) rest)

theorem exec_concat {s t : σ} {ops : List op} (run : exec step s ops = some t) (o : op) :
    exec step s (ops ++ [o]) = step t o := by
  induction ops generalizing s with
  | nil =>
    obtain rfl := some.inj run
    rw [nil_append, exec_cons]
    cases step s o <;> rfl
  | cons o' ops ih =>
    obtain ⟨m, first, rest⟩ := exec_cons_eq_some.mp run
    rw [cons_append, exec_cons, first, bind_some, ih rest]

theorem Always.of_invariant {ops : List op} (start : I s) (domain : Meets step D s ops)
    (holds : ∀ s, I s → P s) (preserved : ∀ s o t, I s → D s o → step s o = some t → I t) :
    Always step P s ops := by
  induction ops generalizing s with
  | nil => exact holds s start
  | cons o ops ih =>
    refine ⟨holds s start, fun t returns => ?_⟩
    exact ih (preserved s o t start domain.1 returns) (domain.2 t returns)

/-- A run returns if and only if every call of it meets the condition under which calls return. -/
theorem returns_iff_meets {ops : List op}
    (each : ∀ s o, (∃ t, step s o = some t) ↔ C s o) :
    (∃ t, exec step s ops = some t) ↔ Meets step C s ops := by
  have everywhere : Meets step (fun _ _ => True) s ops := Meets.of_forall (fun _ _ => trivial) s ops
  constructor
  · rintro ⟨t, run⟩
    exact meets_of_exec (I := fun _ => True) trivial everywhere (fun _ _ _ _ _ _ => trivial)
      (fun s o t _ _ returns => (each s o).mp ⟨t, returns⟩) run
  · intro meets
    obtain ⟨t, run, -⟩ := total (I := fun _ => True) trivial meets fun s o _ here => by
      obtain ⟨t, returns⟩ := (each s o).mpr here
      exact ⟨t, returns, trivial⟩
    exact ⟨t, run⟩

theorem always_congr {Q : σ → Prop} {ops : List op} (start : I s)
    (domain : Meets step D s ops) (same : ∀ s, I s → (P s ↔ Q s))
    (preserved : ∀ s o t, I s → D s o → step s o = some t → I t) :
    Always step P s ops ↔ Always step Q s ops := by
  induction ops generalizing s with
  | nil => exact same s start
  | cons o ops ih =>
    refine and_congr (same s start) (forall_congr' fun t => imp_congr_right fun returns => ?_)
    exact ih (preserved s o t start domain.1 returns) (domain.2 t returns)

/-- What has been observed so far is good if and only if every call met its condition,
when each call adds something bad to it exactly if it does not. -/
theorem exec_iff_meets {s t : σ} {ops : List op} (start : I s) (domain : Meets step D s ops)
    (run : exec step s ops = some t)
    (each : ∀ s o t, I s → D s o → step s o = some t → I t ∧ (P t ↔ P s ∧ C s o)) :
    P t ↔ P s ∧ Meets step C s ops := by
  induction ops generalizing s with
  | nil =>
    cases run
    exact ⟨fun h => ⟨h, trivial⟩, fun h => h.1⟩
  | cons o ops ih =>
    obtain ⟨m, first, rest⟩ := exec_cons_eq_some.mp run
    obtain ⟨inv, here⟩ := each s o m start domain.1 first
    rw [ih inv (domain.2 m first) rest, here, and_assoc]
    refine and_congr_right fun _ => and_congr_right fun _ => ⟨fun h u returns => ?_, fun h => ?_⟩
    · obtain rfl := some.inj (first.symm.trans returns)
      exact h
    · exact h m first

/-- A flag that a call can only clear: after the run it says whether it was set
before and no call cleared it. -/
theorem exec_and {flag : σ → Bool} {keeps : op → Bool} {D : op → Prop} {s t : σ} {ops : List op}
    (domain : ∀ o ∈ ops, D o)
    (each : ∀ s o t, D o → step s o = some t → flag t = (flag s && keeps o))
    (run : exec step s ops = some t) : flag t = (flag s && ops.all keeps) := by
  induction ops generalizing s with
  | nil =>
    cases run
    simp
  | cons o ops ih =>
    obtain ⟨m, first, rest⟩ := exec_cons_eq_some.mp run
    have later := ih (fun o' mem => domain o' (mem_cons_of_mem o mem)) rest
    have now := each s o m (domain o mem_cons_self) first
    rw [later, now, all_cons, Bool.and_assoc]

/-! ## Two runs -/

section Related

variable {σ' op' : Type*} {step' : σ' → op' → Option σ'} {R : σ → σ' → Prop} {f : op → op'}

/-- Two runs whose calls keep a relation stop together, or reach related states. -/
theorem exec_related {s : σ} {s' : σ'} {ops : List op} (start : R s s')
    (each : ∀ o ∈ ops, ∀ s s', R s s' → Option.Rel R (step s o) (step' s' (f o))) :
    Option.Rel R (exec step s ops) (exec step' s' (ops.map f)) := by
  induction ops generalizing s s' with
  | nil => exact .some start
  | cons o ops ih =>
    have first := each o mem_cons_self s s' start
    rw [map_cons, exec_cons, exec_cons]
    generalize step s o = m, step' s' (f o) = m' at first
    cases first with
    | none => exact .none
    | some related => exact ih related fun o mem => each o (mem_cons_of_mem _ mem)

end Related

end Run
