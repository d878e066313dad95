import Mathlib.Data.List.Range
import Mathlib.Tactic.Cases

/-!
# A serial server

Commands are numbered as they arrive and wait in a queue.  Only the first one is run;
it is executed, and once it is finished it leaves the queue.  The whole queue may be
dropped at any time, and then at most one of its commands is told.  The marks of a run
say what happened to the commands, in order.
-/

namespace PacemakerCloud.Foundation

structure Server where
  queue : List Nat
  count : Nat
  running : Bool

inductive Mark where
  | executed (s : Nat)
  | freed (s : Nat)
  | dropped (queue : List Nat)
  | completed (s : Nat)
  | expired (s : Nat)
  deriving DecidableEq, Repr

namespace Mark

def executed? : Mark → Option Nat
  | .executed s => some s
  | _ => none

def settled? : Mark → Option Nat
  | .completed s | .expired s => some s
  | _ => none

end Mark

/-- The command was run to its end, or dropped with the whole queue. -/
def Gone (marks : List Mark) (s : Nat) : Prop :=
  .freed s ∈ marks ∨ ∃ queue, .dropped queue ∈ marks ∧ s ∈ queue

inductive Serves : Server → List Mark → Server → Prop where
  | refl (x : Server) : Serves x [] x
  | enqueue {q : List Nat} {n : Nat} {r : Bool} : Serves ⟨q, n, r⟩ [] ⟨q ++ [n], n + 1, r⟩
  | execute {s n : Nat} {q : List Nat} :
      Serves ⟨s :: q, n, false⟩ [.executed s] ⟨s :: q, n, true⟩
  | finish {s n : Nat} {q : List Nat} :
      Serves ⟨s :: q, n, true⟩ [.freed s, .completed s] ⟨q, n, false⟩
  | drop {q : List Nat} {n : Nat} {r : Bool} :
      Serves ⟨q, n, r⟩ [.dropped q] ⟨[], n, false⟩
  | expire {s : Nat} {q : List Nat} {n : Nat} {r : Bool} (h : s ∈ q) :
      Serves ⟨q, n, r⟩ [.dropped q, .expired s] ⟨[], n, false⟩
  | trans {x y z : Server} {marks marks' : List Mark} (h : Serves x marks y)
      (h' : Serves y marks' z) : Serves x (marks ++ marks') z

theorem Gone.append {marks : List Mark} {s : Nat} (h : Gone marks s) (marks' : List Mark) :
    Gone (marks ++ marks') s := by
  rcases h with h | ⟨queue, h, hs⟩
  · exact Or.inl (List.mem_append_left _ h)
  · exact Or.inr ⟨queue, List.mem_append_left _ h, hs⟩

/-- Every command was executed after all that came before it were gone. -/
def InTurn (marks : List Mark) : Prop :=
  ∀ before s after, marks = before ++ .executed s :: after → ∀ s' < s, Gone before s'

theorem InTurn.append {marks : List Mark} (h : InTurn marks) {mark : Mark}
    (hmark : ∀ s, mark = .executed s → ∀ s' < s, Gone marks s') : InTurn (marks ++ [mark]) := by
  intro before s after heq
  rcases List.eq_nil_or_concat after with rfl | ⟨after, last, rfl⟩
  · obtain ⟨rfl, hlast⟩ := List.append_inj' heq rfl
    exact hmark s (by simpa using hlast)
  · have hlast : marks ++ [mark] = (before ++ .executed s :: after) ++ [last] := by
      simpa using heq
    obtain ⟨hmarks, -⟩ := List.append_inj' hlast rfl
    exact h before s after hmarks

theorem InTurn.append_quiet {marks quiet : List Mark} (h : InTurn marks)
    (hquiet : ∀ mark ∈ quiet, mark.executed? = none) : InTurn (marks ++ quiet) := by
  induction quiet generalizing marks with
  | nil => simpa using h
  | cons mark quiet ih =>
      have hmark : InTurn (marks ++ [mark]) := h.append fun s hs => by
        simpa [hs, Mark.executed?] using hquiet mark List.mem_cons_self
      simpa using ih hmark fun m hm => hquiet m (List.mem_cons_of_mem _ hm)

/--
What the marks say of a server whose first `gone` commands have left the queue.
-/
structure Served (x : Server) (marks : List Mark) (gone : Nat) : Prop where
  le : gone ≤ x.count
  queue : x.queue = List.range' gone (x.count - gone)
  running : x.running = true → gone < x.count
  left : ∀ s < gone, Gone marks s
  inTurn : InTurn marks
  ordered : (marks.filterMap Mark.executed?).Pairwise (· < ·)
  executed : ∀ s ∈ marks.filterMap Mark.executed?, s < gone ∨ x.running = true ∧ s = gone
  once : (marks.filterMap Mark.settled?).Nodup
  settled : ∀ s ∈ marks.filterMap Mark.settled?, s < gone

namespace Served

variable {q : List Nat} {s n gone : Nat} {r : Bool} {marks : List Mark}

theorem init : Served ⟨[], 0, false⟩ [] 0 := by
  constructor <;> simp [InTurn]

theorem mem_queue (h : Served ⟨q, n, r⟩ marks gone) (hs : s ∈ q) : gone ≤ s ∧ s < n := by
  have hle : gone ≤ n := h.le
  have hqueue : q = List.range' gone (n - gone) := h.queue
  rw [hqueue, List.mem_range'_1] at hs
  omega

theorem head (h : Served ⟨s :: q, n, r⟩ marks gone) :
    s = gone ∧ gone < n ∧ q = List.range' (gone + 1) (n - (gone + 1)) := by
  have hlt := h.mem_queue List.mem_cons_self
  have hqueue : s :: q = List.range' gone (n - gone) := h.queue
  have hsucc : n - gone = n - (gone + 1) + 1 := by omega
  rw [hsucc, List.range'_succ, List.cons.injEq] at hqueue
  exact ⟨hqueue.1, by omega, hqueue.2⟩

theorem enqueue (h : Served ⟨q, n, r⟩ marks gone) :
    Served ⟨q ++ [n], n + 1, r⟩ marks gone := by
  have hle : gone ≤ n := h.le
  have hqueue : q = List.range' gone (n - gone) := h.queue
  refine { h with le := Nat.le_succ_of_le hle, queue := ?_, running := fun hr => ?_ }
  · have hsucc : n + 1 - gone = n - gone + 1 := by omega
    have hlast : gone + 1 * (n - gone) = n := by omega
    change q ++ [n] = List.range' gone (n + 1 - gone)
    rw [hsucc, List.range'_concat, hlast, ← hqueue]
  · exact Nat.lt_succ_of_lt (h.running hr)

theorem execute (h : Served ⟨s :: q, n, false⟩ marks gone) :
    Served ⟨s :: q, n, true⟩ (marks ++ [.executed s]) gone := by
  obtain ⟨rfl, hlt, -⟩ := h.head
  have hbefore : ∀ x ∈ marks.filterMap Mark.executed?, x < s := fun x hx =>
    (h.executed x hx).resolve_right (by simp)
  have hkept : (marks ++ [Mark.executed s]).filterMap Mark.settled? =
      marks.filterMap Mark.settled? := by
    rw [List.filterMap_append]
    exact List.append_nil _
  refine ⟨h.le, h.queue, fun _ => hlt, fun x hx => (h.left x hx).append _, ?_, ?_, ?_, ?_, ?_⟩
  · refine h.inTurn.append fun x hx => ?_
    cases hx
    exact h.left
  · simpa [Mark.executed?, List.pairwise_append, h.ordered] using hbefore
  · intro x hx
    rw [List.filterMap_append, List.mem_append] at hx
    rcases hx with hx | hx
    · exact Or.inl (hbefore x hx)
    · exact Or.inr ⟨rfl, by simpa [Mark.executed?] using hx⟩
  · rw [hkept]
    exact h.once
  · rw [hkept]
    exact h.settled

theorem leave (h : Served ⟨q, n, r⟩ marks gone) {quiet : List Mark} {gone' : Nat}
    (hle : gone ≤ gone') (hn : gone' ≤ n) (hrunning : r = true → gone < gone')
    (hquiet : ∀ mark ∈ quiet, mark.executed? = none)
    (hleft : ∀ s, gone ≤ s → s < gone' → Gone quiet s)
    (hsettled : quiet.filterMap Mark.settled? = [] ∨
      ∃ s, quiet.filterMap Mark.settled? = [s] ∧ gone ≤ s ∧ s < gone') :
    Served ⟨List.range' gone' (n - gone'), n, false⟩ (marks ++ quiet) gone' := by
  have hnone : quiet.filterMap Mark.executed? = [] :=
    List.filterMap_eq_nil_iff.mpr hquiet
  have hold : ∀ x ∈ marks.filterMap Mark.settled?, x < gone := h.settled
  refine ⟨hn, rfl, by simp, fun x hx => ?_, h.inTurn.append_quiet hquiet, ?_,
    fun x hx => Or.inl ?_, ?_, fun x hx => ?_⟩
  · rcases Nat.lt_or_ge x gone with hlt | hge
    · exact (h.left x hlt).append _
    · rcases hleft x hge hx with hfreed | ⟨queue, hqueue, hmem⟩
      · exact Or.inl (List.mem_append_right _ hfreed)
      · exact Or.inr ⟨queue, List.mem_append_right _ hqueue, hmem⟩
  · simpa [hnone] using h.ordered
  · simp only [List.filterMap_append, hnone, List.append_nil] at hx
    rcases h.executed x hx with hlt | ⟨hr, rfl⟩
    · omega
    · exact hrunning hr
  · rw [List.filterMap_append]
    rcases hsettled with hnil | ⟨s, hs, hge, -⟩
    · simpa [hnil] using h.once
    · rw [hs, List.nodup_append]
      refine ⟨h.once, by simp, fun x hx y hy => ?_⟩
      have hlt := hold x hx
      rw [List.mem_singleton] at hy
      omega
  · rw [List.filterMap_append, List.mem_append] at hx
    rcases hx with hx | hx
    · exact Nat.lt_of_lt_of_le (hold x hx) hle
    · rcases hsettled with hnil | ⟨s, hs, -, hlt⟩
      · simp [hnil] at hx
      · rw [hs, List.mem_singleton] at hx
        omega

theorem finish (h : Served ⟨s :: q, n, true⟩ marks gone) :
    Served ⟨q, n, false⟩ (marks ++ [.freed s, .completed s]) (gone + 1) := by
  obtain ⟨rfl, hlt, rfl⟩ := h.head
  refine h.leave (Nat.le_succ s) hlt (fun _ => Nat.lt_succ_self s) (by simp [Mark.executed?])
    (fun x hge hle => Or.inl ?_) (Or.inr ⟨s, rfl, Nat.le_refl s, Nat.lt_succ_self s⟩)
  obtain rfl : x = s := by omega
  exact List.mem_cons_self

theorem leave_all (h : Served ⟨q, n, r⟩ marks gone) {quiet : List Mark}
    (hquiet : ∀ mark ∈ quiet, mark.executed? = none) (hdropped : .dropped q ∈ quiet)
    (hsettled : quiet.filterMap Mark.settled? = [] ∨
      ∃ s ∈ q, quiet.filterMap Mark.settled? = [s]) :
    Served ⟨[], n, false⟩ (marks ++ quiet) n := by
  have hle : gone ≤ n := h.le
  have hqueue : q = List.range' gone (n - gone) := h.queue
  have hall := h.leave hle (Nat.le_refl n) h.running hquiet (fun s hge hlt => ?_) ?_
  · simpa using hall
  · refine Or.inr ⟨q, hdropped, ?_⟩
    rw [hqueue, List.mem_range'_1]
    omega
  · refine hsettled.imp_right fun ⟨s, hs, heq⟩ => ⟨s, heq, h.mem_queue hs⟩

theorem drop (h : Served ⟨q, n, r⟩ marks gone) :
    Served ⟨[], n, false⟩ (marks ++ [.dropped q]) n :=
  h.leave_all (by simp [Mark.executed?]) List.mem_cons_self (Or.inl rfl)

theorem expire (h : Served ⟨q, n, r⟩ marks gone) (hs : s ∈ q) :
    Served ⟨[], n, false⟩ (marks ++ [.dropped q, .expired s]) n :=
  h.leave_all (by simp [Mark.executed?]) List.mem_cons_self (Or.inr ⟨s, hs, rfl⟩)

end Served

/-- The rule of the serial server: whatever it does, its marks stay in order. -/
theorem Serves.served {x y : Server} {marks new : List Mark} (hserves : Serves x new y)
    (h : ∃ gone, Served x marks gone) : ∃ gone, Served y (marks ++ new) gone := by
  induction hserves generalizing marks with
  | refl => simpa using h
  | enqueue =>
      obtain ⟨gone, h⟩ := h
      exact ⟨gone, by simpa using h.enqueue⟩
  | execute =>
      obtain ⟨gone, h⟩ := h
      exact ⟨gone, h.execute⟩
  | finish =>
      obtain ⟨gone, h⟩ := h
      exact ⟨gone + 1, h.finish⟩
  | drop =>
      obtain ⟨gone, h⟩ := h
      exact ⟨_, h.drop⟩
  | expire hs =>
      obtain ⟨gone, h⟩ := h
      exact ⟨_, h.expire hs⟩
  | trans _ _ ih ih' => simpa using ih' (ih h)

end PacemakerCloud.Foundation
