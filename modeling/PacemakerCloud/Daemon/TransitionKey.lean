import PacemakerCloud.Daemon.History
import PacemakerCloud.Daemon.Status

/-!
# Transition keys

The key that is written for an entry should describe the operation that was saved last.  An
entry takes the graph and the action of every operation that is saved in it, but keeps the
expected outcome of the first one.
-/

namespace PacemakerCloud

open Foundation

structure SavedAction where
  actionId : Nat
  graphId : Nat
  targetOutcome : Nat
  rc : Int
  deriving DecidableEq, Repr

namespace SavedAction

def key (crmdUuid : CString) (saved : SavedAction) : CString :=
  snprintf 255 (printInt (toInt32 saved.actionId) ++ ':' ::
    printInt (toInt32 saved.graphId) ++ ':' :: printInt (toInt32 saved.targetOutcome) ++ ':' ::
    crmdUuid)

def magic (crmdUuid : CString) (saved : SavedAction) : CString :=
  snprintf 255 ("0:".toList ++ printInt (toInt32 saved.rc) ++ ':' :: saved.key crmdUuid)

end SavedAction

namespace Cape

variable {σ : Type} {c c' : Cape σ} {log : List (CString × SavedAction)}

def savedAction (c : Cape σ) (o : Nat) (ec : Int) : SavedAction :=
  ⟨(c.ops o).actionId, (c.ops o).graphId, (c.ops o).targetOutcome, ec⟩

def savesAction (c : Cape σ) : HistoryEvent σ → List (CString × SavedAction)
  | .save _ _ o ec => [(opHistoryKey (c.ops o), c.savedAction o ec)]
  | .exec _ _ | .unref _ | .clear _ | .delete _ | .other _ => []

def actionLog (c : Cape σ) (events : List (HistoryEvent σ)) : List (CString × SavedAction) :=
  (trace historyStep savesAction c events).reverse

/-- Key and magic of every entry are those of the operation saved last under its key. -/
def DescribesLast (c : Cape σ) (log : List (CString × SavedAction)) : Prop :=
  ∀ oh ∈ c.history, ∃ saved, log.find? (·.1 = oh.rscId) = some (oh.rscId, saved) ∧
    ∀ crmdUuid,
      (opHistoryInsert crmdUuid c.digests oh).transitionKey = saved.key crmdUuid ∧
      (opHistoryInsert crmdUuid c.digests oh).transitionMagic = saved.magic crmdUuid

def KeepsTarget (c : Cape σ) : HistoryEvent σ → Prop
  | .save _ _ o _ => ∀ oh ∈ c.findEntry (opHistoryKey (c.ops o)),
      oh.targetOutcome = (c.ops o).targetOutcome
  | _ => True

instance decidableKeepsTarget (c : Cape σ) : ∀ e, Decidable (c.KeepsTarget e)
  | .save _ _ _ _ => inferInstanceAs (Decidable (∀ oh ∈ _, _))
  | .exec _ _ | .unref _ | .clear _ | .delete _ | .other _ => .isTrue trivial

structure Tracks (c : Cape σ) (log : List (CString × SavedAction)) : Prop where
  allocated : c.Allocated
  entries : ∀ key oh, c.findEntry key = some oh →
    log.find? (·.1 = key) = some (key, ⟨oh.actionId, oh.graphId, oh.targetOutcome, oh.rc⟩)

theorem opHistorySave_targetOutcome (c : Cape σ) (now : Nat) (r : ResourceId) (o : Nat)
    (ec : Int) {oh : OperationHistory}
    (h : (c.opHistorySave now r o ec).findEntry (opHistoryKey (c.ops o)) = some oh) :
    oh.targetOutcome = ((c.findEntry (opHistoryKey (c.ops o))).map (·.targetOutcome)).getD
      (c.ops o).targetOutcome := by
  have hkey := (opHistoryEntry_finds c r (c.ops o)).rscId
  have htarget : (c.opHistoryEntry r (c.ops o)).2.targetOutcome =
      ((c.findEntry (opHistoryKey (c.ops o))).map (·.targetOutcome)).getD
        (c.ops o).targetOutcome := by
    unfold opHistoryEntry findEntry
    split
    case h_1 hfind => simp [hfind]
    case h_2 old hfind =>
      rw [hfind]
      split <;> rfl
  rw [← htarget]
  rw [opHistorySave] at h
  generalize c.opHistoryEntry r (c.ops o) = found at hkey h
  simp only [findEntry, historyPut, find?_mapPut, apply_ite OperationHistory.rscId, ite_self, hkey,
    if_true, Option.some.injEq] at h
  rw [← h]
  simp only [apply_ite OperationHistory.targetOutcome, ite_self]

theorem Fresh.tracks (h : c.Fresh) : Tracks c [] where
  allocated := h.allocated
  entries key oh hfind := by simp [findEntry, h.history] at hfind

namespace Tracks

theorem elsewhere (h : Tracks c log) (he : Elsewhere c c') : Tracks c' log where
  allocated := h.allocated.elsewhere he
  entries key oh hfind := by
    rw [findEntry, he.history] at hfind
    exact h.entries key oh hfind

theorem clears (h : Tracks c log) {dropped : List OperationHistory} (hc : Clears c c' dropped) :
    Tracks c' log where
  allocated := h.allocated.clears hc
  entries key oh hfind := by
    rw [findEntry, hc.history, find?_filter_key fun key => ∀ oh ∈ dropped, key ≠ oh.rscId] at hfind
    split at hfind
    · exact h.entries key oh hfind
    · cases hfind

theorem save (h : Tracks c log) {now o : Nat} {r : ResourceId} {ec : Int} (ho : o < c.opCount)
    (hkeeps : c.KeepsTarget (.save now r o ec)) :
    Tracks (c.opHistorySave now r o ec)
      ((opHistoryKey (c.ops o), c.savedAction o ec) :: log) := by
  obtain ⟨oh, hs⟩ := exists_saves c now r o ec
  have hput : ∀ key, (c.opHistorySave now r o ec).findEntry key =
      if opHistoryKey (c.ops o) = key then some oh else c.findEntry key := by
    intro key
    rw [findEntry, hs.history, historyPut, find?_mapPut, hs.rscId]
    rfl
  have htarget : oh.targetOutcome = (c.ops o).targetOutcome := by
    rw [opHistorySave_targetOutcome c now r o ec (by rw [hput, if_pos rfl])]
    cases hfind : c.findEntry (opHistoryKey (c.ops o)) with
    | none => rfl
    | some old => exact hkeeps old hfind
  refine ⟨h.allocated.saves hs ho, fun key x hfind => ?_⟩
  rw [hput] at hfind
  by_cases hkey : opHistoryKey (c.ops o) = key
  · rw [if_pos hkey, Option.some.injEq] at hfind
    subst hkey hfind
    simp [savedAction, htarget, hs.actionId, hs.graphId, hs.rc]
  · rw [if_neg hkey] at hfind
    rw [List.find?_cons_of_neg (by simpa using hkey)]
    exact h.entries key x hfind

theorem step {e : HistoryEvent σ} (h : Tracks c log) (hkeeps : c.Possible e ∧ c.KeepsTarget e)
    (hstep : historyStep c e = .ok c') : Tracks c' ((c.savesAction e).reverse ++ log) := by
  obtain ⟨hpossible, hkeeps⟩ := hkeeps
  cases e with
  | exec graph spec =>
      cases hstep
      exact h.elsewhere (.execRscAction c graph spec)
  | save now r o ec =>
      cases hstep
      exact h.save hpossible hkeeps
  | unref o =>
      cases hstep
      exact h.clears (.peResourceUnref c o)
  | clear a =>
      cases hstep
      exact h.clears (.nodeOpHistoryClear c a)
  | delete o =>
      cases hstep
      exact h.clears (.opHistoryDelete c o)
  | other next =>
      cases hstep
      exact h.elsewhere hpossible

theorem describesLast (h : Tracks c log) : c.DescribesLast log := by
  intro oh hoh
  refine ⟨_, h.entries oh.rscId oh (h.allocated.findEntry_of_mem hoh), fun crmdUuid => ?_⟩
  simp only [opHistoryInsert, SavedAction.magic, SavedAction.key, and_self]

end Tracks

/-- As long as the operations of a key expect one outcome, the key describes the last one. -/
theorem describes_last_of_keepsTarget {events : List (HistoryEvent σ)} (hfresh : c.Fresh)
    (hkeeps : Along historyStep (fun c e => c.Possible e ∧ c.KeepsTarget e) c events)
    (hrun : run historyStep c events = .ok c') : c'.DescribesLast (c.actionLog events) := by
  have hstart : Tracks c (List.reverse []) := hfresh.tracks
  have htracks := run_trace_along (I := fun c ms => Tracks c ms.reverse) savesAction
    (fun h hkeeps hstep => by
      rw [List.reverse_append]
      exact h.step hkeeps hstep) hstart hkeeps hrun
  exact htracks.describesLast

def probeFor (o targetOutcome : Nat) (rc : Int) : List (HistoryEvent Ring) :=
  [.exec o { World.angusOn World.bar .monitor 0 targetOutcome with actionId := o },
    .save 1000000 ⟨World.bar, "rsc_bar_angus".toList⟩ o rc]

theorem describes_last_of_keepsTarget_probes :
    ∃ c, run historyStep barCape (probeFor 0 7 7 ++ probeFor 1 7 0) = .ok c ∧
      c.history.map (·.actionId) = [1] ∧
      c.DescribesLast (barCape.actionLog (probeFor 0 7 7 ++ probeFor 1 7 0)) := by
  obtain ⟨c, hrun, hentries⟩ : ∃ c,
      run historyStep barCape (probeFor 0 7 7 ++ probeFor 1 7 0) = .ok c ∧
      c.history.map (·.actionId) = [1] := ⟨_, rfl, by decide +kernel⟩
  refine ⟨c, hrun, hentries, describes_last_of_keepsTarget barCape_fresh ?_ hrun⟩
  exact ⟨⟨trivial, trivial⟩, ⟨show 0 < _ by decide +kernel, by decide +kernel⟩,
    ⟨trivial, trivial⟩, ⟨show 1 < _ by decide +kernel, by decide +kernel⟩, trivial⟩

/-- The second probe expects the service to run; the key still says that it should not. -/
theorem first_target_is_kept :
    ∃ c, run historyStep barCape (probeFor 0 7 7 ++ probeFor 1 0 0) = .ok c ∧
      (barCape.actionLog (probeFor 0 7 7 ++ probeFor 1 0 0)).head?.map (·.2) =
        some ⟨1, 1, 0, 0⟩ ∧
      c.history.map (fun oh => ((opHistoryInsert "uuid".toList c.digests oh).transitionKey,
          (opHistoryInsert "uuid".toList c.digests oh).transitionMagic)) =
        [("1:1:7:uuid".toList, "0:0:1:1:7:uuid".toList)] := by
  refine ⟨_, rfl, ?_⟩
  decide +kernel

end Cape

end PacemakerCloud
