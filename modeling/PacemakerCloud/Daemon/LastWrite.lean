import PacemakerCloud.Cape.Keys
import PacemakerCloud.Daemon.Digests
import PacemakerCloud.Foundation.Log

/-!
# The operation history as a log

The history is compared with the log of the saves, clears and deletes.  A key has an entry
if it was saved after it was last dropped; the entry then shows the latest save, and since
when the results have been the same.  Its digest is that of the latest save only as long as
the digest under a key does not change: the entry then takes over a string that it does not own.
-/

namespace PacemakerCloud

open Foundation

structure SavedResult where
  rc : Int
  digest : CString
  graphId : Nat
  actionId : Nat
  time : Nat
  deriving DecidableEq, Repr

structure LogEntry where
  rc : Int
  digest : Option CString
  graphId : Nat
  actionId : Nat
  lastRun : Nat
  lastRcChange : Nat
  callId : Nat
  deriving DecidableEq, Repr

/-- The entry of a key, from its saves since it was last dropped, the newest first. -/
def entryOf : List (Nat × SavedResult) → Option LogEntry
  | [] => none
  | (index, saved) :: older =>
      some
        { rc := saved.rc
          digest := some saved.digest
          graphId := saved.graphId
          actionId := saved.actionId
          lastRun := saved.time
          lastRcChange := (runStart SavedResult.rc saved older).time
          callId := index }

namespace Cape

variable {σ : Type} {c c' : Cape σ} {owner : CString → ResourceId}
  {log : List (LogEvent CString SavedResult)}

def view (c : Cape σ) (oh : OperationHistory) : LogEntry where
  rc := oh.rc
  digest := (c.digests oh.opDigest).read
  graphId := oh.graphId
  actionId := oh.actionId
  lastRun := oh.lastRun
  lastRcChange := oh.lastRcChange
  callId := oh.callId

def savedResult (c : Cape σ) (now o : Nat) (ec : Int) : SavedResult where
  rc := ec
  digest := (c.digests (c.ops o).opDigest).text
  graphId := (c.ops o).graphId
  actionId := (c.ops o).actionId
  time := now / usInSec

def logged (owner : CString → ResourceId) (c : Cape σ) :
    HistoryEvent σ → List (LogEvent CString SavedResult)
  | .save now _ o ec => [.write (opHistoryKey (c.ops o)) (c.savedResult now o ec)]
  | .clear a => [.drop fun key => (owner key).assembly = a]
  | .delete o => [.drop fun key => some (owner key) = (c.ops o).resource]
  | .exec _ _ | .unref _ | .other _ => []

def historyLog (owner : CString → ResourceId) (c : Cape σ) (events : List (HistoryEvent σ)) :
    List (LogEvent CString SavedResult) :=
  (trace historyStep (logged owner) c events).reverse

/-- Results are saved for the resource of their key, and none of them is pending. -/
def Regular (owner : CString → ResourceId) (c : Cape σ) (e : HistoryEvent σ) : Prop :=
  c.Possible e ∧
    match e with
    | .save _ r o ec => ec ≠ ocfPending ∧ r = owner (opHistoryKey (c.ops o))
    | _ => True

/-- The operation has not been freed, and its digest is the one that its key has already. -/
def SameDigest (c : Cape σ) (o : Nat) : Prop :=
  (c.digests (c.ops o).opDigest).live = true ∧
    ∀ oh ∈ c.findEntry (opHistoryKey (c.ops o)),
      (c.digests oh.opDigest).text = (c.digests (c.ops o).opDigest).text

instance (c : Cape σ) (o : Nat) : Decidable (c.SameDigest o) :=
  inferInstanceAs (Decidable (_ ∧ ∀ oh ∈ c.findEntry _, _))

def SavesSameDigest (c : Cape σ) : HistoryEvent σ → Prop
  | .save _ _ o _ => c.SameDigest o
  | _ => True

instance (c : Cape σ) : DecidablePred c.SavesSameDigest
  | .save _ _ o _ => inferInstanceAs (Decidable (c.SameDigest o))
  | .exec _ _ | .unref _ | .clear _ | .delete _ | .other _ => .isTrue trivial

/-! ## Steps -/

structure Logs (owner : CString → ResourceId) (c : Cape σ)
    (log : List (LogEvent CString SavedResult)) : Prop where
  apart : c.Apart
  resource : ∀ oh ∈ c.history, oh.resource = owner oh.rscId
  callOrder : c.callOrder = writeCount log
  entries : ∀ key, (c.findEntry key).map c.view = entryOf (trail key log)

theorem view_congr (h : c.Apart) (h' : c'.Apart) {oh : OperationHistory} (hoh : oh ∈ c.history)
    (hoh' : oh ∈ c'.history)
    (htext : (c'.digests oh.opDigest).text = (c.digests oh.opDigest).text) :
    c'.view oh = c.view oh := by
  simp only [view, h.read hoh, h'.read hoh', htext]

theorem findEntry_map_view_congr (h : c.Apart) (h' : c'.Apart) {key : CString}
    (hentry : c'.findEntry key = c.findEntry key)
    (htext : ∀ oh ∈ c.history, (c'.digests oh.opDigest).text = (c.digests oh.opDigest).text) :
    (c'.findEntry key).map c'.view = (c.findEntry key).map c.view := by
  cases hfind : c.findEntry key with
  | none => rw [hentry, hfind]; rfl
  | some oh =>
      rw [hfind] at hentry
      have hoh := mem_of_findEntry hfind
      rw [hentry, Option.map_some, Option.map_some,
        view_congr h h' hoh (mem_of_findEntry hentry) (htext oh hoh)]

theorem Fresh.logs (h : c.Fresh) : Logs owner c [] where
  apart := h.apart
  resource := by simp [h.history]
  callOrder := h.callOrder
  entries key := by simp [findEntry, h.history, trail, entryOf]

namespace Logs

theorem elsewhere (h : Logs owner c log) (he : Elsewhere c c') : Logs owner c' log where
  apart := h.apart.elsewhere he
  resource oh hoh := h.resource oh (he.history ▸ hoh)
  callOrder := he.callOrder.trans h.callOrder
  entries key := by
    have hentry : c'.findEntry key = c.findEntry key := by rw [findEntry, he.history, findEntry]
    rw [← h.entries key]
    refine findEntry_map_view_congr h.apart (h.apart.elsewhere he) hentry fun oh hoh => ?_
    rw [he.digests _ (h.apart.allocated.entries oh hoh)]

theorem unref (h : Logs owner c log) (hc : Clears c c' []) : Logs owner c' log := by
  have hhistory : c'.history = c.history := by simpa using hc.history
  exact
    { apart := h.apart.unref hc
      resource := fun oh hoh => h.resource oh (hhistory ▸ hoh)
      callOrder := hc.callOrder.trans h.callOrder
      entries := fun key => by
        rw [← h.entries key]
        refine findEntry_map_view_congr h.apart (h.apart.unref hc) ?_ fun oh _ =>
          hc.text oh.opDigest
        rw [findEntry, hhistory, findEntry] }

theorem findEntry_clears (h : Logs owner c log) (drop : ResourceId → Bool)
    (hc : Clears c c' (c.history.filter fun oh => drop oh.resource)) (key : CString) :
    c'.findEntry key = if drop (owner key) then none else c.findEntry key := by
  have hkept : c'.history = c.history.filter fun oh => !drop (owner oh.rscId) := by
    rw [hc.history_eq h.apart.allocated.keys]
    refine List.filter_congr fun oh hoh => ?_
    rw [h.resource oh hoh]
  rw [findEntry, hkept, find?_filter_key fun key => !drop (owner key)]
  cases drop (owner key) <;> rfl

theorem clears (h : Logs owner c log) (drop : ResourceId → Bool)
    (hc : Clears c c' (c.history.filter fun oh => drop oh.resource)) :
    Logs owner c' (.drop (fun key => drop (owner key)) :: log) where
  apart := h.apart.clears hc
  resource oh hoh := by
    rw [hc.history] at hoh
    exact h.resource oh (List.mem_of_mem_filter hoh)
  callOrder := hc.callOrder.trans h.callOrder
  entries key := by
    have hfind := h.findEntry_clears drop hc key
    rw [trail]
    split at hfind
    case isTrue hdrop =>
      rw [hfind, if_pos hdrop]
      rfl
    case isFalse hkept =>
      rw [if_neg hkept, ← h.entries key]
      exact findEntry_map_view_congr h.apart (h.apart.clears hc) hfind
        fun oh _ => hc.text oh.opDigest

theorem view_saves (h : Logs owner c log) {now o : Nat} {r : ResourceId} {ec : Int}
    {oh : OperationHistory} (hs : Saves c c' now r o ec oh) (hapart : c'.Apart)
    (hec : ec ≠ ocfPending) :
    some (c'.view oh) = entryOf ((writeCount log, c.savedResult now o ec) ::
      trail (opHistoryKey (c.ops o)) log) := by
  have hentry := h.entries (opHistoryKey (c.ops o))
  have hchange : oh.lastRcChange = (runStart SavedResult.rc (c.savedResult now o ec)
      (trail (opHistoryKey (c.ops o)) log)).time := by
    rw [hs.lastRcChange]
    cases htrail : trail (opHistoryKey (c.ops o)) log with
    | nil =>
        rw [htrail, entryOf, Option.map_eq_none_iff] at hentry
        rw [hentry]
        exact if_neg hec.symm
    | cons last older =>
        rw [htrail, entryOf, Option.map_eq_some_iff] at hentry
        obtain ⟨old, hfind, hview⟩ := hentry
        have hrc : old.rc = last.2.rc := congrArg LogEntry.rc hview
        have hsince : old.lastRcChange = (runStart SavedResult.rc last.2 older).time :=
          congrArg LogEntry.lastRcChange hview
        rw [hfind, runStart_cons]
        simp only [Option.map_some, Option.getD_some, hrc, hsince, apply_ite SavedResult.time]
        rfl
  have hmem : oh ∈ c'.history := by
    rw [hs.history]
    exact List.mem_of_find?_eq_some ((find?_mapPut _ oh oh.rscId).trans (if_pos rfl))
  have hread : (c'.digests oh.opDigest).read = some (c.savedResult now o ec).digest := by
    rw [hapart.read hmem, hs.digest.text_eq]
    rfl
  simp only [entryOf, view, hs.rc, hread, hs.graphId, hs.actionId, hs.lastRun, hchange,
    hs.callId, h.callOrder]
  rfl

theorem saves (h : Logs owner c log) {now o : Nat} {r : ResourceId} {ec : Int}
    {oh : OperationHistory} (hs : Saves c c' now r o ec oh) (ho : o < c.opCount)
    (hec : ec ≠ ocfPending) (hr : r = owner (opHistoryKey (c.ops o))) (hsame : c.SameDigest o) :
    Logs owner c' (.write (opHistoryKey (c.ops o)) (c.savedResult now o ec) :: log) where
  apart := h.apart.saves hs ho hsame.2
  resource x hx := by
    rw [hs.history] at hx
    rcases mem_mapPut hx with rfl | hold
    · rw [hs.resource, hs.rscId]
      cases hfind : c.findEntry (opHistoryKey (c.ops o)) with
      | none => exact hr
      | some old =>
          rw [← rscId_of_findEntry hfind]
          exact h.resource old (mem_of_findEntry hfind)
    · exact h.resource x hold
  callOrder := by rw [hs.callOrder, h.callOrder, writeCount]
  entries key := by
    have hapart := h.apart.saves hs ho hsame.2
    have hfind : c'.findEntry key =
        if opHistoryKey (c.ops o) = key then some oh else c.findEntry key := by
      rw [findEntry, hs.history, historyPut, find?_mapPut, hs.rscId, findEntry]
    rw [trail]
    split at hfind
    case isTrue hkey =>
      rw [hfind, if_pos hkey, ← hkey]
      exact h.view_saves hs hapart hec
    case isFalse hkey =>
      rw [if_neg hkey, ← h.entries key]
      refine findEntry_map_view_congr h.apart hapart hfind fun old hold => ?_
      exact hs.digest.text_of_lt (h.apart.allocated.entries old hold)

theorem step {e : HistoryEvent σ} (h : Logs owner c log) (hregular : Regular owner c e)
    (hsame : c.SavesSameDigest e) (hstep : historyStep c e = .ok c') :
    Logs owner c' ((logged owner c e).reverse ++ log) := by
  obtain ⟨hpossible, hsave⟩ := hregular
  cases e with
  | exec graph spec =>
      cases hstep
      exact h.elsewhere (.execRscAction c graph spec)
  | save now r o ec =>
      cases hstep
      obtain ⟨oh, hs⟩ := exists_saves c now r o ec
      exact h.saves hs hpossible hsave.1 hsave.2 hsame
  | unref o =>
      cases hstep
      exact h.unref (.peResourceUnref c o)
  | clear a =>
      cases hstep
      exact h.clears (fun r => r.assembly = a) (.nodeOpHistoryClear c a)
  | delete o =>
      cases hstep
      exact h.clears (fun r => some r = (c.ops o).resource) (.opHistoryDelete c o)
  | other next =>
      cases hstep
      exact h.elsewhere hpossible

end Logs

/-! ## Runs -/

/-- The history is the map that the log describes. -/
structure LastWriteWins (owner : CString → ResourceId) (c : Cape σ)
    (log : List (LogEvent CString SavedResult)) : Prop where
  keys : (c.history.map OperationHistory.rscId).Nodup
  resource : ∀ oh ∈ c.history, oh.resource = owner oh.rscId
  present : ∀ key, (c.findEntry key).isSome ↔
    ∃ newer saved older, log = newer ++ .write key saved :: older ∧
      ∀ selects, .drop selects ∈ newer → selects key = false
  entries : ∀ key, (c.findEntry key).map c.view = entryOf (trail key log)
  callId_lt : ∀ oh ∈ c.history, oh.callId < writeCount log
  callId_inj : ∀ oh ∈ c.history, ∀ oh' ∈ c.history, oh.callId = oh'.callId → oh = oh'
  cleared : ∀ a, (c.nodeOpHistoryClear a).history =
      c.history.filter (fun oh => !decide (oh.resource.assembly = a)) ∧
    ∀ oh ∈ (c.nodeOpHistoryClear a).history, (c.nodeOpHistoryClear a).view oh = c.view oh
  deleted : ∀ o, (c.opHistoryDelete o).history =
      c.history.filter (fun oh => !decide (some oh.resource = (c.ops o).resource)) ∧
    ∀ oh ∈ (c.opHistoryDelete o).history, (c.opHistoryDelete o).view oh = c.view oh

theorem Apart.view_clears (h : c.Apart) {drop : OperationHistory → Bool}
    (hc : Clears c c' (c.history.filter drop)) :
    ∀ oh ∈ c'.history, c'.view oh = c.view oh := by
  intro oh hoh
  have hmem : oh ∈ c.history := by
    rw [hc.history] at hoh
    exact List.mem_of_mem_filter hoh
  exact view_congr h (h.clears hc) hmem hoh (hc.text oh.opDigest)

namespace Logs

theorem isSome_findEntry_iff (h : Logs owner c log) (key : CString) :
    (c.findEntry key).isSome ↔ trail key log ≠ [] := by
  have hentry := congrArg Option.isSome (h.entries key)
  rw [Option.isSome_map] at hentry
  rw [hentry]
  cases trail key log <;> simp [entryOf]

theorem exists_index (h : Logs owner c log) {oh : OperationHistory} (hoh : oh ∈ c.history) :
    ∃ saved, (oh.callId, saved) ∈ trail oh.rscId log := by
  have hentry := h.entries oh.rscId
  rw [h.apart.allocated.findEntry_of_mem hoh] at hentry
  cases htrail : trail oh.rscId log with
  | nil => simp [htrail, entryOf] at hentry
  | cons last older =>
      rw [htrail, Option.map_some, entryOf, Option.some.injEq] at hentry
      have hindex : oh.callId = last.1 := congrArg LogEntry.callId hentry
      exact ⟨last.2, by simp [hindex]⟩

theorem lastWriteWins (h : Logs owner c log) : LastWriteWins owner c log where
  keys := h.apart.allocated.keys
  resource := h.resource
  present key := (h.isSome_findEntry_iff key).trans trail_ne_nil_iff
  entries := h.entries
  callId_lt oh hoh := by
    obtain ⟨saved, hindex⟩ := h.exists_index hoh
    exact index_lt_writeCount hindex
  callId_inj oh hoh oh' hoh' heq := by
    obtain ⟨saved, hindex⟩ := h.exists_index hoh
    obtain ⟨saved', hindex'⟩ := h.exists_index hoh'
    rw [← heq] at hindex'
    exact List.inj_on_of_nodup_map h.apart.allocated.keys hoh hoh' (key_of_index hindex hindex')
  cleared a :=
    have hc := Clears.nodeOpHistoryClear c a
    ⟨hc.history_eq h.apart.allocated.keys, h.apart.view_clears hc⟩
  deleted o :=
    have hc := Clears.opHistoryDelete c o
    ⟨hc.history_eq h.apart.allocated.keys, h.apart.view_clears hc⟩

end Logs

/--
After every run of saves, clears and deletes in which the digest under a key stays, the history
is that of the log.
-/
theorem history_last_write_wins {events : List (HistoryEvent σ)} (hfresh : c.Fresh)
    (hregular : Along historyStep (fun c e => Regular owner c e ∧ c.SavesSameDigest e) c events)
    (hrun : run historyStep c events = .ok c') :
    LastWriteWins owner c' (historyLog owner c events) := by
  have hstart : Logs owner c (List.reverse []) := hfresh.logs
  have hlogs := run_trace_along (I := fun c ms => Logs owner c ms.reverse) (logged owner)
    (fun h hregular hstep => by
      rw [List.reverse_append]
      exact h.step hregular.1 hregular.2 hstep) hstart hregular hrun
  exact hlogs.lastWriteWins

theorem regular_save (named : CString → ResourceId) (now : Nat) {o : Nat} {ec : Int}
    (ho : o < c.opCount) (hec : ec ≠ ocfPending) (hlogged : (c.ops o).method.Logged)
    (hfits : (keyText (c.ops o).rname (c.ops o).method (c.ops o).interval).length ≤ keyMax) :
    Regular (fun key => named (rnameOf key)) c (.save now (named (c.ops o).rname) o ec) :=
  ⟨ho, hec, congrArg named (rnameOf_opHistoryKey hlogged hfits).symm⟩

def probes : List (HistoryEvent Ring) :=
  [.exec 0 (World.angusOn World.bar .monitor 0 7),
    .save 1000000 ⟨World.bar, "rsc_bar_angus".toList⟩ 0 7,
    .save 3000000 ⟨World.bar, "rsc_bar_angus".toList⟩ 0 7]

/-- Of two probes with one result the entry shows the second, and the time of the first. -/
theorem history_last_write_wins_probes :
    ∃ c, run historyStep barCape probes = .ok c ∧
      LastWriteWins (fun key => ⟨World.bar, rnameOf key⟩) c
        (historyLog (fun key => ⟨World.bar, rnameOf key⟩) barCape probes) ∧
      c.history.map c.view = [⟨7, some [], 1, 1, 3, 1, 1⟩] := by
  refine ⟨_, rfl, history_last_write_wins barCape_fresh ?_ rfl, by decide +kernel⟩
  refine ⟨⟨⟨trivial, trivial⟩, trivial⟩, ⟨?_, by decide +kernel⟩, ⟨?_, by decide +kernel⟩, trivial⟩
  · exact regular_save (fun rname => ⟨World.bar, rname⟩) _ (by decide +kernel)
      (by decide) (Or.inl rfl) (by decide +kernel)
  · exact regular_save (fun rname => ⟨World.bar, rname⟩) _ (by decide +kernel)
      (by decide) (Or.inl rfl) (by decide +kernel)

/-- Two probes of the service with two digests, of which both are saved again. -/
def alternating : List (HistoryEvent Ring) :=
  probe 0 "d" ++ probe 1 "e" ++
    [.save 2000000 ⟨World.bar, "rsc_bar_angus".toList⟩ 0 7,
      .save 3000000 ⟨World.bar, "rsc_bar_angus".toList⟩ 1 7]

theorem alternating_regular :
    Along historyStep (Regular fun key => ⟨World.bar, rnameOf key⟩) barCape alternating := by
  refine ⟨⟨trivial, trivial⟩, ?_, ⟨trivial, trivial⟩, ?_, ?_, ?_, trivial⟩ <;>
    exact regular_save (fun rname => ⟨World.bar, rname⟩) _ (by decide +kernel)
      (by decide) (Or.inl rfl) (by decide +kernel)

/--
The second save of the first probe frees the digest of the second, and the last save puts that
into the entry: the entry shows no digest, where the log has the one of the second probe.
-/
theorem alternating_digest_freed :
    Along historyStep (Regular fun key => ⟨World.bar, rnameOf key⟩) barCape alternating ∧
      ∃ c, run historyStep barCape alternating = .ok c ∧
        c.history.map (fun oh => (c.view oh).digest) = [none] ∧
        ¬ LastWriteWins (fun key => ⟨World.bar, rnameOf key⟩) c
          (historyLog (fun key => ⟨World.bar, rnameOf key⟩) barCape alternating) := by
  refine ⟨alternating_regular, _, rfl, by decide +kernel, fun h => ?_⟩
  have hdigest := congrArg (Option.map LogEntry.digest) (h.entries "rsc_bar_angus_monitor_0".toList)
  revert hdigest
  decide +kernel

end Cape

end PacemakerCloud
