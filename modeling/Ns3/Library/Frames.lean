import Mathlib.Data.List.Basic
import Mathlib.Data.List.Sublists

/-!
# Messages cut into frames

A stream of messages is carried by frames. A frame holds consecutive pieces of messages; only its
first piece may continue a message of the frame before, and only its last piece may be continued
in the next frame. A receiver that is given some of the frames in their order, and that keeps the
open message only from one frame to the very next, rebuilds some of the messages in their order;
given all frames it rebuilds them all.
-/

namespace Frames

open List Option

variable {α : Type*}

/-- Consecutive pieces: whether the first one begins a message and the last one ends one. -/
structure Frame (α : Type*) where
  head : List α
  tail : List (List α)
  first : Bool
  last : Bool
  deriving DecidableEq

namespace Frame

/-- All pieces. -/
def pieces (f : Frame α) : List (List α) := f.head :: f.tail

/-- The pieces, joined to the message that is open before the frame. -/
def whole (f : Frame α) (before : List α) : List (List α) := (before ++ f.head) :: f.tail

/-- The messages that the frame ends. -/
def ended (f : Frame α) (before : List α) : List (List α) :=
  if f.last then f.whole before else (f.whole before).dropLast

/-- The message that is open after the frame. -/
def opened (f : Frame α) (before : List α) : Option (List α) :=
  if f.last then none else (f.whole before).getLast?

/-- What a receiver without the beginning of the first message rebuilds. -/
def endedLater (f : Frame α) : List (List α) := if f.last then f.tail else f.tail.dropLast

def openedLater (f : Frame α) : Option (List α) := if f.last then none else f.tail.getLast?

/-- What a receiver that has kept the open message, or nothing, makes of a frame. -/
def accept (kept : Option (List α)) (f : Frame α) : List (List α) × Option (List α) :=
  match kept, f.first with
  | some before, _ => (f.ended before, f.opened before)
  | none, true => (f.ended [], f.opened [])
  | none, false => (f.endedLater, f.openedLater)

theorem accept_some (f : Frame α) (before : List α) :
    f.accept (some before) = (f.ended before, f.opened before) := rfl

theorem accept_first {f : Frame α} (first : f.first = true) :
    f.accept none = (f.ended [], f.opened []) := by
  simp only [accept, first]

theorem accept_later {f : Frame α} (later : f.first = false) :
    f.accept none = (f.endedLater, f.openedLater) := by
  simp only [accept, later]

theorem accept_exact {f : Frame α} {kept : Option (List α)} (first : f.first = kept.isNone) :
    f.accept kept = (f.ended (kept.getD []), f.opened (kept.getD [])) := by
  cases kept with
  | none => exact accept_first first
  | some message => exact accept_some _ _

theorem endedLater_sublist (f : Frame α) (before : List α) :
    f.endedLater.Sublist (f.ended before) := by
  rw [endedLater, ended, whole]
  split
  · exact sublist_cons_self _ _
  · cases tail : f.tail with
    | nil => exact .refl _
    | cons piece rest => exact sublist_cons_self _ _

theorem openedLater_eq (f : Frame α) (before : List α) :
    f.openedLater = none ∨ f.openedLater = f.opened before := by
  rw [openedLater, opened, whole]
  split
  · exact .inl rfl
  · cases f.tail with
    | nil => exact .inl rfl
    | cons piece rest => exact .inr (getLast?_cons_cons ..).symm

end Frame

/-- The frames of a stream, with the message that is open before each. -/
structure Stream (α : Type*) where
  frame : Nat → Frame α
  before : Nat → Option (List α)
  start : before 0 = none
  first : ∀ n, (frame n).first = (before n).isNone
  next : ∀ n, before (n + 1) = (frame n).opened ((before n).getD [])

namespace Stream

variable (S : Stream α)

/-- The messages that a frame ends. -/
def ends (n : Nat) : List (List α) := (S.frame n).ended ((S.before n).getD [])

/-- The messages that end before a frame. -/
def endedBefore (n : Nat) : List (List α) := (List.range n).flatMap S.ends

@[simp] theorem endedBefore_zero : S.endedBefore 0 = [] := rfl

theorem endedBefore_succ (n : Nat) : S.endedBefore (n + 1) = S.endedBefore n ++ S.ends n := by
  rw [endedBefore, range_succ, flatMap_append, flatMap_singleton]
  rfl

theorem endedBefore_prefix {n m : Nat} (le : n ≤ m) : S.endedBefore n <+: S.endedBefore m := by
  induction m, le using Nat.le_induction with
  | base => exact prefix_rfl
  | succ m _ ih =>
    rw [endedBefore_succ]
    exact ih.trans (prefix_append _ _)

/-- What a receiver may keep before a frame. -/
def Keeps (n : Nat) (kept : Option (List α)) : Prop := kept = none ∨ kept = S.before n

theorem accept_exact (n : Nat) :
    (S.frame n).accept (S.before n) = (S.ends n, S.before (n + 1)) := by
  rw [ends, next]
  exact Frame.accept_exact (S.first n)

/-- A receiver that may have lost the beginning rebuilds some of them. -/
theorem accept_keeps {n : Nat} {kept : Option (List α)} (keeps : S.Keeps n kept) :
    ((S.frame n).accept kept).1.Sublist (S.ends n) ∧
      S.Keeps (n + 1) ((S.frame n).accept kept).2 := by
  obtain rfl | rfl := keeps
  · cases before : S.before n with
    | none =>
      have exact_ := S.accept_exact n
      rw [before] at exact_
      rw [exact_]
      exact ⟨.refl _, .inr rfl⟩
    | some message =>
      have first : (S.frame n).first = false := by rw [S.first, before]; rfl
      rw [Frame.accept_later first, ends, Keeps, next, before]
      exact ⟨Frame.endedLater_sublist _ _, Frame.openedLater_eq _ _⟩
  · rw [accept_exact]
    exact ⟨.refl _, .inr rfl⟩

theorem first_of_keeps {n : Nat} {message : List α} (keeps : S.Keeps n (some message)) :
    (S.frame n).first = false := by
  obtain none_ | same := keeps
  · cases none_
  · rw [S.first, ← same]
    rfl

/-- What has been delivered, when all frames up to `n` are given or passed over. -/
structure Received (n : Nat) (kept : Option (List α)) (delivered : List (List α)) : Prop where
  keeps : S.Keeps n kept
  sublist : delivered.Sublist (S.endedBefore n)

variable {S}

theorem received_zero : S.Received 0 none [] := ⟨.inl rfl, .refl _⟩

theorem Received.skip {n m : Nat} {kept : Option (List α)} {delivered : List (List α)}
    (h : S.Received n kept delivered) (le : n ≤ m) : S.Received m none delivered :=
  ⟨.inl rfl, h.sublist.trans (S.endedBefore_prefix le).sublist⟩

theorem Received.accept {n : Nat} {kept : Option (List α)} {delivered : List (List α)}
    (h : S.Received n kept delivered) :
    S.Received (n + 1) ((S.frame n).accept kept).2 (delivered ++ ((S.frame n).accept kept).1) := by
  obtain ⟨sublist, keeps⟩ := S.accept_keeps h.keeps
  refine ⟨keeps, ?_⟩
  rw [endedBefore_succ]
  exact h.sublist.append sublist

end Stream

/-! ## Lists of frames -/

/-- The message that is open after some frames. -/
def openAfter (fs : List (Frame α)) : Option (List α) :=
  fs.foldl (fun before f => f.opened (before.getD [])) none

/-- Each frame continues where the ones before it stop. -/
def Linked (fs : List (Frame α)) : Prop :=
  ∀ n f, fs[n]? = some f → f.first = (openAfter (fs.take n)).isNone

@[simp] theorem openAfter_nil : openAfter ([] : List (Frame α)) = none := rfl

theorem openAfter_concat (fs : List (Frame α)) (f : Frame α) :
    openAfter (fs ++ [f]) = f.opened ((openAfter fs).getD []) := by
  rw [openAfter, foldl_append]
  rfl

theorem linked_nil : Linked ([] : List (Frame α)) := nofun

theorem Linked.concat {fs : List (Frame α)} {f : Frame α} (linked : Linked fs)
    (first : f.first = (openAfter fs).isNone) : Linked (fs ++ [f]) := by
  intro n g there
  rw [getElem?_append] at there
  split at there
  case isTrue short =>
    rw [take_append_of_le_length short.le]
    exact linked n g there
  case isFalse long =>
    obtain ⟨end_, rfl⟩ : n = fs.length ∧ f = g := by
      cases at_ : n - fs.length with
      | zero =>
        rw [at_] at there
        exact ⟨by omega, some.inj there⟩
      | succ k =>
        rw [at_] at there
        cases there
    rw [end_, take_left]
    exact first

/-- A frame that leaves everything as it is. -/
def Frame.idle (before : Option (List α)) : Frame α := ⟨[], [], before.isNone, before.isNone⟩

theorem Frame.opened_idle (before : Option (List α)) :
    (idle before).opened (before.getD []) = before := by
  cases before with
  | none => rfl
  | some message => exact congrArg some (append_nil message)

/-- The stream of a list of frames; idle frames follow. -/
def Stream.ofList (fs : List (Frame α)) (linked : Linked fs) : Stream α where
  frame n := fs[n]?.getD (Frame.idle (openAfter (fs.take n)))
  before n := openAfter (fs.take n)
  start := by rw [take_zero]; rfl
  first n := by
    cases there : fs[n]? with
    | none => rfl
    | some f => exact linked n f there
  next n := by
    rw [take_add_one]
    cases there : fs[n]? with
    | none =>
      rw [toList_none, append_nil]
      exact (Frame.opened_idle _).symm
    | some f => exact openAfter_concat _ f

theorem Stream.ofList_frame {fs : List (Frame α)} (linked : Linked fs) {n : Nat} {f : Frame α}
    (there : fs[n]? = some f) : (ofList fs linked).frame n = f := by
  simp [ofList, there]

/-- The messages that some frames end. -/
def endedBy (fs : List (Frame α)) : List (List α) :=
  (fs.foldl (fun (ended, before) f =>
    (ended ++ f.ended (before.getD []), f.opened (before.getD [])))
    ([], none)).1

@[simp] theorem endedBy_nil : endedBy ([] : List (Frame α)) = [] := rfl

theorem endedBy_concat (fs : List (Frame α)) (f : Frame α) :
    endedBy (fs ++ [f]) = endedBy fs ++ f.ended ((openAfter fs).getD []) := by
  have both (ended : List (List α)) (before : Option (List α)) :
      (fs.foldl (fun (ended, before) f =>
        (ended ++ f.ended (before.getD []), f.opened (before.getD []))) (ended, before)).2 =
      fs.foldl (fun before f => f.opened (before.getD [])) before := by
    induction fs generalizing ended before with
    | nil => rfl
    | cons g fs ih => exact ih _ _
  rw [endedBy, foldl_append, openAfter, ← both []]
  rfl

theorem Stream.ofList_endedBefore {fs : List (Frame α)} (linked : Linked fs) {n : Nat}
    (le : n ≤ fs.length) : (ofList fs linked).endedBefore n = endedBy (fs.take n) := by
  induction n with
  | zero => rfl
  | succ n ih =>
    have there : fs[n]? = some fs[n] := getElem?_eq_getElem le
    rw [endedBefore_succ, ih (Nat.le_of_succ_le le), take_add_one, there, toList_some,
      endedBy_concat, ends, ofList_frame linked there]
    rfl

end Frames
