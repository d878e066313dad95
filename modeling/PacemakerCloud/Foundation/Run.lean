import Mathlib.Data.List.Basic

/-!
# Runs of an event-driven program

A program of this kind is a function that dispatches one event: it either
reaches a next state or stops.  A run dispatches a list of events.  The rules
below turn a fact about one dispatch into a fact about every run, possibly only
for those runs in which every dispatch meets a side condition.
-/

namespace PacemakerCloud.Foundation

universe u v w

variable {S : Type u} {E : Type v} {F : Type w} (step : S → E → Except F S)

/-- Dispatch the events one after the other; the first stop ends the run. -/
def run : S → List E → Except F S
  | s, [] => .ok s
  | s, e :: es =>
      match step s e with
      | .ok s' => run s' es
      | .error f => .error f

/-- Every event that is dispatched finds a state which meets `P`. -/
def Along (P : S → E → Prop) : S → List E → Prop
  | _, [] => True
  | s, e :: es =>
      P s e ∧
        match step s e with
        | .ok s' => Along P s' es
        | .error _ => True

instance decidableAlong (P : S → E → Prop) [∀ s e, Decidable (P s e)] :
    ∀ s es, Decidable (Along step P s es)
  | _, [] => .isTrue trivial
  | s, e :: es =>
      match h : step s e with
      | .ok s' =>
          have := decidableAlong P s' es
          decidable_of_iff (P s e ∧ Along step P s' es) (by simp [Along, h])
      | .error _ => decidable_of_iff (P s e) (by simp [Along, h])

variable {step}

theorem run_cons_ok {s s' : S} {e : E} {es : List E}
    (h : run step s (e :: es) = .ok s') :
    ∃ mid, step s e = .ok mid ∧ run step mid es = .ok s' := by
  simp only [run] at h
  cases hstep : step s e with
  | ok mid => exact ⟨mid, rfl, by simpa [hstep] using h⟩
  | error f => simp [hstep] at h

theorem run_singleton {s s' : S} {e : E} : run step s [e] = .ok s' ↔ step s e = .ok s' := by
  cases hstep : step s e <;> simp [run, hstep]

theorem run_append {s mid : S} {es es' : List E} (h : run step s es = .ok mid) :
    run step s (es ++ es') = run step mid es' := by
  induction es generalizing s with
  | nil => cases h; rfl
  | cons e es ih =>
      obtain ⟨next, hnext, hes⟩ := run_cons_ok h
      rw [List.cons_append, run, hnext]
      exact ih hes

/-- The progress rule: where no dispatch of these events stops, no run of them does. -/
theorem run_progress {I : S → Prop} {P : E → Prop}
    (hstep : ∀ {s e}, I s → P e → ∃ s', step s e = .ok s' ∧ I s') {s : S} {es : List E}
    (hinit : I s) (hes : ∀ e ∈ es, P e) : ∃ s', run step s es = .ok s' ∧ I s' := by
  induction es generalizing s with
  | nil => exact ⟨s, rfl, hinit⟩
  | cons e es ih =>
      rw [List.forall_mem_cons] at hes
      obtain ⟨next, hnext, hkept⟩ := hstep hinit hes.1
      rw [run, hnext]
      exact ih hkept hes.2

/--
The invariant rule.  `I` is kept by every dispatch that meets `P`, so it holds
after every run all of whose dispatches meet `P`.
-/
theorem run_invariant {I : S → Prop} {P : S → E → Prop}
    (keep : ∀ {s e s'}, I s → P s e → step s e = .ok s' → I s')
    {s s' : S} {es : List E} (hs : I s) (along : Along step P s es)
    (hrun : run step s es = .ok s') : I s' := by
  induction es generalizing s with
  | nil =>
      cases hrun
      exact hs
  | cons e es ih =>
      obtain ⟨mid, hstep, hrest⟩ := run_cons_ok hrun
      obtain ⟨hP, halong⟩ := along
      rw [hstep] at halong
      exact ih (keep hs hP hstep) halong hrest

theorem along_true (s : S) (es : List E) : Along step (fun _ _ => True) s es := by
  induction es generalizing s with
  | nil => trivial
  | cons e es ih =>
      refine ⟨trivial, ?_⟩
      cases step s e with
      | ok s' => exact ih s'
      | error f => trivial

theorem run_invariant_of_step {I : S → Prop}
    (keep : ∀ {s e s'}, I s → step s e = .ok s' → I s')
    {s s' : S} {es : List E} (hs : I s) (hrun : run step s es = .ok s') :
    I s' :=
  run_invariant (P := fun _ _ => True) (fun h _ hstep => keep h hstep) hs
    (along_true s es) hrun

theorem along_iff {I : S → Prop} {P Q : S → E → Prop}
    (keep : ∀ {s e s'}, I s → step s e = .ok s' → I s')
    (agree : ∀ {s e s'}, I s → step s e = .ok s' → (P s e ↔ Q s e))
    {s s' : S} {es : List E} (hs : I s) (hrun : run step s es = .ok s') :
    Along step P s es ↔ Along step Q s es := by
  induction es generalizing s with
  | nil => rfl
  | cons e es ih =>
      obtain ⟨mid, hstep, hrest⟩ := run_cons_ok hrun
      simp only [Along, hstep, agree hs hstep, ih (keep hs hstep) hrest]

/-- The safety rule: a dispatch that meets `P` does not stop for the reason `f`. -/
theorem run_ne_error {I : S → Prop} {P : S → E → Prop} {f : F}
    (keep : ∀ {s e s'}, I s → P s e → step s e = .ok s' → I s')
    (safe : ∀ {s e}, I s → P s e → step s e ≠ .error f)
    {s : S} {es : List E} (hs : I s) (along : Along step P s es) :
    run step s es ≠ .error f := by
  induction es generalizing s with
  | nil => simp [run]
  | cons e es ih =>
      obtain ⟨hP, halong⟩ := along
      simp only [run]
      cases hstep : step s e with
      | ok mid =>
          rw [hstep] at halong
          exact ih (keep hs hP hstep) halong
      | error f' =>
          rintro ⟨⟩
          exact safe hs hP hstep

/-! ## Since when -/

/--
`mark` held of some dispatch of the run after the last one of which `reset` held; the
first argument says whether it does so at the start.
-/
def since (step : S → E → Except F S) (mark reset : S → E → S → Bool) :
    Bool → S → List E → Bool
  | b, _, [] => b
  | b, s, e :: es =>
      match step s e with
      | .ok s' => since step mark reset (!reset s e s' && (b || mark s e s')) s' es
      | .error _ => b

/--
The rule for `since`: a marked dispatch brings `Q` about, and every dispatch keeps it
that is no reset.
-/
theorem run_since {I Q : S → Prop} {mark reset : S → E → S → Bool}
    (keep : ∀ {s e s'}, I s → step s e = .ok s' → I s')
    (hold : ∀ {s e s'}, I s → step s e = .ok s' → reset s e s' = false →
      mark s e s' = true ∨ Q s → Q s')
    {b : Bool} {s s' : S} {es : List E} (hs : I s) (hb : b = true → Q s)
    (hrun : run step s es = .ok s') (hsince : since step mark reset b s es = true) :
    Q s' := by
  induction es generalizing b s with
  | nil =>
      cases hrun
      exact hb hsince
  | cons e es ih =>
      obtain ⟨mid, hstep, hrest⟩ := run_cons_ok hrun
      simp only [since, hstep] at hsince
      refine ih (keep hs hstep) (fun hmid => ?_) hrest hsince
      simp only [Bool.and_eq_true, Bool.not_eq_true', Bool.or_eq_true] at hmid
      obtain ⟨hreset, hbefore | hmark⟩ := hmid
      · exact hold hs hstep hreset (Or.inr (hb hbefore))
      · exact hold hs hstep hreset (Or.inl hmark)

/-! ## Traces -/

section Trace

variable {M : Type*} (step) (label : S → E → List M)

/-- The labels of the dispatches that succeeded, in order. -/
def trace : S → List E → List M
  | _, [] => []
  | s, e :: es =>
      match step s e with
      | .ok s' => label s e ++ trace s' es
      | .error _ => []

variable {step}

/--
The rule for traces: every dispatch that meets `P` keeps `I` as the trace grows by its
labels.
-/
theorem run_trace_along {I : S → List M → Prop} {P : S → E → Prop}
    (keep : ∀ {s e s' ms}, I s ms → P s e → step s e = .ok s' → I s' (ms ++ label s e))
    {s s' : S} {es : List E} {ms : List M} (hs : I s ms) (along : Along step P s es)
    (hrun : run step s es = .ok s') : I s' (ms ++ trace step label s es) := by
  induction es generalizing s ms with
  | nil =>
      cases hrun
      simpa [trace] using hs
  | cons e es ih =>
      obtain ⟨mid, hstep, hrest⟩ := run_cons_ok hrun
      obtain ⟨hP, halong⟩ := along
      rw [hstep] at halong
      simpa [trace, hstep] using ih (keep hs hP hstep) halong hrest

theorem run_trace {I : S → List M → Prop}
    (keep : ∀ {s e s' ms}, I s ms → step s e = .ok s' → I s' (ms ++ label s e))
    {s s' : S} {es : List E} {ms : List M} (hs : I s ms) (hrun : run step s es = .ok s') :
    I s' (ms ++ trace step label s es) :=
  run_trace_along label (fun h _ hstep => keep h hstep) hs (along_true s es) hrun

end Trace

/-! ## Evaluating a run -/

def endsIn (step : S → E → Except F S) (s : S) (es : List E) (p : S → Bool) : Bool :=
  match run step s es with
  | .ok s' => p s'
  | .error _ => false

theorem exists_of_endsIn {s : S} {es : List E} {p : S → Bool}
    (h : endsIn step s es p = true) : ∃ s', run step s es = .ok s' ∧ p s' = true := by
  unfold endsIn at h
  cases hrun : run step s es with
  | ok s' => exact ⟨s', rfl, by simpa [hrun] using h⟩
  | error f => simp [hrun] at h

def stopsWith [DecidableEq F] (step : S → E → Except F S) (s : S) (es : List E) (f : F) :
    Bool :=
  match run step s es with
  | .ok _ => false
  | .error f' => f' = f

theorem run_of_stopsWith [DecidableEq F] {s : S} {es : List E} {f : F}
    (h : stopsWith step s es f = true) : run step s es = .error f := by
  unfold stopsWith at h
  cases hrun : run step s es with
  | ok s' => simp [hrun] at h
  | error f' =>
      simp only [hrun, decide_eq_true_eq] at h
      rw [h]

theorem bind_eq_ok {α β : Type u} {x : Except F α} {f : α → Except F β} {b : β} :
    (x >>= f) = .ok b ↔ ∃ a, x = .ok a ∧ f a = .ok b := by
  cases x with
  | ok a => simp [bind, Except.bind]
  | error e => simp [bind, Except.bind]

theorem ok_bind {α β : Type u} (a : α) (f : α → Except F β) :
    ((.ok a : Except F α) >>= f) = f a := rfl

theorem ok_ne_error {α : Type u} {a : α} {e : F} : (.ok a : Except F α) ≠ .error e := by
  simp

theorem bind_ne_error {α β : Type u} {x : Except F α} {f : α → Except F β} {e : F}
    (hx : x ≠ .error e) (hf : ∀ a, x = .ok a → f a ≠ .error e) :
    (x >>= f) ≠ .error e := by
  cases x with
  | ok a => exact hf a rfl
  | error e' => simpa [bind, Except.bind] using hx

/--
The rule for a loop that may fail: every pass keeps `I` of the state and of what is left of the
list.
-/
theorem foldlM_invariant {S : Type u} {f : S → E → Except F S} {I : S → List E → Prop}
    (keep : ∀ {s e es s'}, I s (e :: es) → f s e = .ok s' → I s' es) {s s' : S} {es : List E}
    (hs : I s es) (h : es.foldlM f s = .ok s') : I s' [] := by
  induction es generalizing s with
  | nil =>
      rw [← Except.ok.inj h]
      exact hs
  | cons e es ih =>
      rw [List.foldlM_cons] at h
      obtain ⟨mid, hmid, hrest⟩ := bind_eq_ok.mp h
      exact ih (keep hs hmid) hrest

/-! ## Pre- and postconditions -/

/-- `P` holds of what a computation fails with, and `Q` of what it returns. -/
def Ends (P : F → Prop) (Q : S → Prop) : Except F S → Prop
  | .ok s => Q s
  | .error f => P f

theorem Ends.mono {P P' : F → Prop} {Q Q' : S → Prop} {x : Except F S} (h : Ends P Q x)
    (herror : ∀ f, P f → P' f) (hok : ∀ s, Q s → Q' s) : Ends P' Q' x := by
  cases x with
  | ok s => exact hok s h
  | error f => exact herror f h

theorem Ends.bind {S' : Type u} {P : F → Prop} {Q : S → Prop} {R : S' → Prop}
    {x : Except F S} {f : S → Except F S'} (hx : Ends P Q x)
    (hf : ∀ s, Q s → Ends P R (f s)) : Ends P R (x >>= f) := by
  cases x with
  | ok s => exact hf s hx
  | error e => exact hx

end PacemakerCloud.Foundation
