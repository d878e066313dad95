import PacemakerCloud.Daemon.Journal
import PacemakerCloud.Daemon.Lookup
import Mathlib.Data.Fintype.EquivFin

/-!
# Assemblies do not disturb each other

The handlers of all assemblies work on the same tables: the operations, the resources, the timers of
the monitors and the operation history.  What the daemon keeps for one assembly is changed by its
own events only, except that a result is saved in another assembly's entry if the keys agree.
-/

namespace PacemakerCloud

open Foundation

namespace Cape

variable {σ : Type} {b : CString} {c c' c'' : Cape σ} {o : Nat} {r : ResourceId}

def timersOf (c : Cape σ) (b : CString) : List (Nat × Nat) :=
  c.monitorTimers.filter fun x => (c.ops x.2).hostname = b

def historyOf (c : Cape σ) (b : CString) : List OperationHistory :=
  c.history.filter fun oh => oh.resource.assembly = b

/-! ## Ownership -/

/-- The monitor of a resource, and the timer it names, are for an operation on its assembly. -/
structure Owned (c : Cape σ) : Prop where
  resource : ∀ {o r}, (c.ops o).resource = some r → (c.ops o).hostname = r.assembly
  monitorOp : ∀ {r o}, (c.resources r).monitorOp = some o →
    o < c.opCount ∧ (c.ops o).resource = some r
  armed : ∀ x ∈ c.monitorTimers, x.2 < c.opCount ∧ x.1 ≤ c.timerCount
  monitorTimer : ∀ x ∈ c.monitorTimers, ∀ r, x.1 = (c.resources r).monitorTimer →
    (c.ops x.2).hostname = r.assembly
  handles : ∀ x ∈ c.monitorTimers, ∀ y ∈ c.monitorTimers, x.1 = y.1 →
    (c.ops x.2).hostname = (c.ops y.2).hostname
  named : ∀ r, (c.resources r).monitorTimer ≤ c.timerCount
  keys : (c.history.map OperationHistory.rscId).Nodup

namespace Owned

theorem congr (h : Owned c)
    (hops : ∀ o, (c'.ops o).hostname = (c.ops o).hostname ∧
      (c'.ops o).resource = (c.ops o).resource)
    (hcount : c'.opCount = c.opCount) (htimers : c'.monitorTimers ⊆ c.monitorTimers)
    (htimerCount : c'.timerCount = c.timerCount)
    (hmonitorOp : ∀ r, (c'.resources r).monitorOp = none ∨
      (c'.resources r).monitorOp = (c.resources r).monitorOp)
    (hmonitorTimer : ∀ r, (c'.resources r).monitorTimer = (c.resources r).monitorTimer)
    (hkeys : (c'.history.map OperationHistory.rscId).Nodup) : Owned c' where
  resource {o r} hr := by
    rw [(hops o).2] at hr
    rw [(hops o).1]
    exact h.resource hr
  monitorOp {r o} hr := by
    rw [hcount, (hops o).2]
    rcases hmonitorOp r with hnone | hsame
    · rw [hnone] at hr
      cases hr
    · exact h.monitorOp (hsame ▸ hr)
  armed x hx := by
    rw [hcount, htimerCount]
    exact h.armed x (htimers hx)
  monitorTimer x hx r hr := by
    rw [(hops x.2).1]
    exact h.monitorTimer x (htimers hx) r (hmonitorTimer r ▸ hr)
  handles x hx y hy hxy := by
    rw [(hops x.2).1, (hops y.2).1]
    exact h.handles x (htimers hx) y (htimers hy) hxy
  named r := by
    rw [hmonitorTimer, htimerCount]
    exact h.named r
  keys := hkeys

theorem unwinds (h : Owned c) (hunwinds : c.Unwinds c')
    (hkeys : (c'.history.map OperationHistory.rscId).Nodup) : Owned c' :=
  h.congr (fun o => ⟨hunwinds.hostname o, hunwinds.resource o⟩) hunwinds.opCount
    hunwinds.timers.subset hunwinds.timerCount hunwinds.monitorOp hunwinds.monitorTimer hkeys

theorem same (h : Owned c) (hsame : c.SameMonitors c')
    (hkeys : (c'.history.map OperationHistory.rscId).Nodup) : Owned c' :=
  h.congr (fun o => by rw [hsame.ops]; exact ⟨rfl, rfl⟩) hsame.opCount hsame.timers.subset
    hsame.timerCount (fun r => Or.inr (hsame.monitorOp r)) hsame.monitorTimer hkeys

end Owned

/-! ## What is spared -/

structure Spares (b : CString) (c c' : Cape σ) : Prop extends SameKeys c c' where
  ops : ∀ o < c.opCount, (c.ops o).hostname = b → c'.ops o = c.ops o
  created : ∀ o, c.opCount ≤ o → o < c'.opCount → (c'.ops o).hostname ≠ b
  cloud : c'.cloud b = c.cloud b
  resources : ∀ name, c'.resources ⟨b, name⟩ = c.resources ⟨b, name⟩
  timers : c'.timersOf b = c.timersOf b
  history : c'.historyOf b = c.historyOf b

theorem SameKeys.hostname (h : SameKeys c c') (ho : o < c.opCount) :
    (c'.ops o).hostname = (c.ops o).hostname :=
  congrArg (fun r => r.assembly) (h.target o ho)

namespace Spares

theorem refl (b : CString) (c : Cape σ) : Spares b c c where
  toSameKeys := .of_ops le_rfl fun _ _ => rfl
  ops _ _ _ := rfl
  created _ hold hnew := absurd hnew (Nat.not_lt.mpr hold)
  cloud := rfl
  resources _ := rfl
  timers := rfl
  history := rfl

theorem trans (h : Spares b c c') (h' : Spares b c' c'') : Spares b c c'' where
  toSameKeys := h.toSameKeys.trans h'.toSameKeys
  ops o ho hb := by
    have hmid : (c'.ops o).hostname = b := (h.hostname ho).trans hb
    rw [h'.ops o (ho.trans_le h.opCount) hmid, h.ops o ho hb]
  created o hold hnew := by
    by_cases hmid : o < c'.opCount
    · rw [h'.hostname hmid]
      exact h.created o hold hmid
    · exact h'.created o (Nat.le_of_not_lt hmid) hnew
  cloud := h'.cloud.trans h.cloud
  resources name := (h'.resources name).trans (h.resources name)
  timers := h'.timers.trans h.timers
  history := h'.history.trans h.history

end Spares

structure Local (b : CString) (c c' : Cape σ) : Prop where
  owned : Owned c'
  spares : Spares b c c'

theorem Local.trans (h : Local b c c') (h' : Local b c' c'') : Local b c c'' :=
  ⟨h'.owned, h.spares.trans h'.spares⟩

structure Foreign (b : CString) (o : Nat) (c : Cape σ) : Prop where
  owned : Owned c
  lt : o < c.opCount
  hostname : (c.ops o).hostname ≠ b
  apart : ∀ oh ∈ c.historyOf b, oh.rscId ≠ opHistoryKey (c.ops o)

theorem Foreign.next (h : Foreign b o c) (hlocal : Local b c c') : Foreign b o c' where
  owned := hlocal.owned
  lt := h.lt.trans_le hlocal.spares.opCount
  hostname := by
    rw [hlocal.spares.hostname h.lt]
    exact h.hostname
  apart oh hoh := by
    rw [hlocal.spares.key o h.lt]
    exact h.apart oh (hlocal.spares.history ▸ hoh)

/-! ## Single changes -/

namespace Owned

theorem stay (h : Owned c) (b : CString) : Local b c c := ⟨h, .refl b c⟩

theorem timerDel (h : Owned c) {handle : Nat}
    (hb : ∀ x ∈ c.monitorTimers, x.1 = handle → (c.ops x.2).hostname ≠ b) :
    Local b c (c.timerDel handle) := by
  refine ⟨h.unwinds (.timerDel c handle) h.keys, { Spares.refl b c with timers := ?_ }⟩
  unfold timersOf Cape.timerDel
  rw [List.filter_filter]
  refine List.filter_congr fun x hx => ?_
  by_cases hhandle : x.1 = handle
  · simp [hb x hx hhandle]
  · simp [hhandle]

theorem monitorTimerDel (h : Owned c) (hr : r.assembly ≠ b) :
    Local b c (c.timerDel (c.resources r).monitorTimer) := by
  refine h.timerDel fun x hx heq => ?_
  rw [h.monitorTimer x hx r heq]
  exact hr

theorem modifyOps (h : Owned c) (ho : (c.ops o).hostname ≠ b)
    (hops : ∀ x, x ≠ o → c'.ops x = c.ops x) (hkeys : SameKeys c c')
    (hop : (c'.ops o).hostname = (c.ops o).hostname ∧ (c'.ops o).resource = (c.ops o).resource)
    (hrest : ∃ digests, c' = { c with ops := c'.ops, digests := digests }) :
    Local b c c' := by
  have hsame : ∀ x, (c'.ops x).hostname = (c.ops x).hostname ∧
      (c'.ops x).resource = (c.ops x).resource := by
    intro x
    by_cases hx : x = o
    · subst hx
      exact hop
    · rw [hops x hx]
      exact ⟨rfl, rfl⟩
  obtain ⟨digests, hc⟩ := hrest
  constructor
  · refine h.congr hsame ?_ ?_ ?_ ?_ ?_ ?_ <;> rw [hc]
    · exact List.Subset.refl _
    · exact fun _ => Or.inr rfl
    · exact fun _ => rfl
    · exact h.keys
  · refine ⟨hkeys, fun x hx hb => hops x ?_, fun x hold hnew => ?_, ?_, fun name => ?_, ?_, ?_⟩
    · rintro rfl
      exact ho hb
    · rw [hc] at hnew
      exact absurd hnew (Nat.not_lt.mpr hold)
    · rw [hc]
    · rw [hc]
    · have htimers : c'.monitorTimers = c.monitorTimers := by rw [hc]
      simp only [timersOf, htimers, (hsame _).1]
    · rw [historyOf, hc]
      rfl

theorem peResourceUnref (h : Owned c) (ho : (c.ops o).hostname ≠ b) :
    Local b c (c.peResourceUnref o) := by
  have hunwinds := Unwinds.peResourceUnref c o
  refine h.modifyOps ho (fun x hx => ?_) (.of_core hunwinds.opCount.ge fun x _ => hunwinds.core x)
    ⟨hunwinds.hostname o, hunwinds.resource o⟩ (peResourceUnref_eq c o)
  simp [Function.update_of_ne hx]

theorem modifyOp (h : Owned c) (ho : (c.ops o).hostname ≠ b) {f : PeOperation → PeOperation}
    (hf : ∀ op, (f op).target = op.target ∧ (f op).resource = op.resource ∧
      opHistoryKey (f op) = opHistoryKey op) : Local b c (c.modifyOp o f) := by
  have hother : ∀ x, x ≠ o → (c.modifyOp o f).ops x = c.ops x :=
    fun x hx => Function.update_of_ne hx _ _
  have hself : (c.modifyOp o f).ops o = f (c.ops o) := Function.update_self _ _ _
  have hkeys : SameKeys c (c.modifyOp o f) := by
    refine ⟨le_rfl, fun x _ => ?_, fun x _ => ?_⟩ <;> by_cases hx : x = o
    · rw [hx, hself, (hf _).1]
    · rw [hother x hx]
    · rw [hx, hself, (hf _).2.2]
    · rw [hother x hx]
  refine h.modifyOps ho hother hkeys ?_ ⟨c.digests, rfl⟩
  rw [hself]
  exact ⟨congrArg (fun r => r.assembly) (hf _).1, (hf _).2.1⟩

theorem modifyResource (h : Owned c) (hr : r.assembly ≠ b) {f : Resource σ → Resource σ}
    (hf : ∀ x, (f x).monitorTimer = x.monitorTimer ∧
      ((f x).monitorOp = none ∨ (f x).monitorOp = x.monitorOp)) :
    Local b c (c.modifyResource r f) := by
  have hresource : ∀ r', ((c.modifyResource r f).resources r').monitorTimer =
      (c.resources r').monitorTimer ∧
      (((c.modifyResource r f).resources r').monitorOp = none ∨
        ((c.modifyResource r f).resources r').monitorOp = (c.resources r').monitorOp) := by
    intro r'
    by_cases hr' : r' = r
    · subst hr'
      simpa [Cape.modifyResource] using hf (c.resources r')
    · simp [Cape.modifyResource, Function.update_of_ne hr']
  refine ⟨h.congr (fun _ => ⟨rfl, rfl⟩) rfl (List.Subset.refl _) rfl (fun r' => (hresource r').2)
    (fun r' => (hresource r').1) h.keys, { Spares.refl b c with resources := fun name => ?_ }⟩
  refine Function.update_of_ne ?_ _ _
  rintro rfl
  exact hr rfl

theorem modifyCloud (h : Owned c) {a : CString} (ha : a ≠ b) (f : Instance → Instance) :
    Local b c (c.modifyCloud a f) :=
  ⟨{ h with }, { Spares.refl b c with cloud := Function.update_of_ne ha.symm _ _ }⟩

theorem setStopped (h : Owned c) (hr : r.assembly ≠ b) (stopped : Bool) :
    Local b c (c.setStopped r stopped) :=
  h.modifyResource hr fun _ => ⟨rfl, Or.inr rfl⟩

theorem peResourceCompleted (h : Owned c) (b : CString) (o : Nat) (returnCode : Int) :
    Local b c (c.peResourceCompleted o returnCode) :=
  ⟨{ h with }, { Spares.refl b c with }⟩

theorem scheduleProcessing (h : Owned c) (b : CString) : Local b c c.scheduleProcessing :=
  ⟨{ h with }, { Spares.refl b c with }⟩

theorem engine (h : Owned c) (b : CString) (hengine : World.Engine c c') : Local b c c' := by
  cases hengine with
  | processJob =>
      simp only [World.processJob]
      split <;> exact ⟨{ h with }, { Spares.refl b c with }⟩
  | processNextJob =>
      simp only [World.processNextJob]
      split <;> exact ⟨{ h with }, { Spares.refl b c with }⟩
  | confirmed => exact ⟨{ h with }, { Spares.refl b c with }⟩
  | @returned graph status =>
      cases status <;> exact ⟨{ h with }, { Spares.refl b c with }⟩

/-! ## Stopping monitors and clearing the history -/

theorem stopMonitor (h : Owned c) (hr : r.assembly ≠ b) : Local b c (c.stopMonitor r) := by
  unfold Cape.stopMonitor
  split
  case h_2 => exact h.stay b
  case h_1 o ho =>
    obtain ⟨hlt, hresource⟩ := h.monitorOp ho
    have hhost : (c.ops o).hostname ≠ b := by
      rw [h.resource hresource]
      exact hr
    have hunref : ∀ {mid : Cape σ}, Local b c mid → Local b c (mid.peResourceUnref o) := by
      intro mid hmid
      refine hmid.trans (hmid.owned.peResourceUnref ?_)
      rw [hmid.spares.hostname hlt]
      exact hhost
    simp only [recurringMonitorStop, hresource]
    have hmid : Local b c (if c.timerIsRunning (c.resources r).monitorTimer then
        (c.timerDel (c.resources r).monitorTimer).peResourceUnref o else c) := by
      split
      · exact hunref (h.monitorTimerDel hr)
      · exact h.stay b
    generalize (if c.timerIsRunning (c.resources r).monitorTimer then
      (c.timerDel (c.resources r).monitorTimer).peResourceUnref o else c) = mid at hmid ⊢
    exact hunref (hmid.trans (hmid.owned.modifyResource hr fun _ => ⟨rfl, Or.inl rfl⟩))

theorem dropEntry (h : Owned c) {oh : OperationHistory}
    (hb : ∀ x ∈ c.history, x.rscId = oh.rscId → x.resource.assembly ≠ b) :
    Local b c (c.dropEntry oh) := by
  refine ⟨h.unwinds (.dropEntry c oh) (h.keys.sublist (List.filter_sublist.map _)),
    { Spares.refl b c with history := ?_ }⟩
  simp only [historyOf, Cape.dropEntry, digestFree, List.filter_filter]
  refine List.filter_congr fun x hx => ?_
  by_cases hkey : x.rscId = oh.rscId
  · simp [hb x hx hkey]
  · simp [hkey]

theorem clearEntry (h : Owned c) {oh : OperationHistory} (hr : oh.resource.assembly ≠ b)
    (hb : ∀ x ∈ c.history, x.rscId = oh.rscId → x.resource.assembly ≠ b) :
    Local b c (c.clearEntry oh) := by
  have hstop : Local b c (c.stopWaitingMonitor oh.resource) := by
    unfold stopWaitingMonitor
    split
    · exact h.stopMonitor hr
    · exact h.stay b
  have hhistory : (c.stopWaitingMonitor oh.resource).history = c.history := by
    simpa using (Clears.unwinding.stopWaitingMonitor c oh.resource).history
  refine hstop.trans (hstop.owned.dropEntry fun x hx => hb x ?_)
  rwa [hhistory] at hx

theorem foldl_clearEntry (h : Owned c) {drop : ResourceId → Bool} {entries : List OperationHistory}
    (hb : ∀ oh ∈ entries, drop oh.resource = true → oh.resource.assembly ≠ b ∧
      ∀ x ∈ c.history, x.rscId = oh.rscId → x.resource.assembly ≠ b) :
    Local b c
      (entries.foldl (fun c oh => if drop oh.resource then c.clearEntry oh else c) c) := by
  induction entries generalizing c with
  | nil => exact h.stay b
  | cons oh entries ih =>
      rw [List.forall_mem_cons] at hb
      rw [List.foldl_cons]
      split
      case isFalse => exact ih h hb.2
      case isTrue hdrop =>
        obtain ⟨hr, hkey⟩ := hb.1 hdrop
        have hclear := h.clearEntry hr hkey
        refine hclear.trans (ih hclear.owned fun oh' hoh' hdrop' => ?_)
        obtain ⟨hr', hkey'⟩ := hb.2 oh' hoh' hdrop'
        refine ⟨hr', fun x hx => hkey' x ?_⟩
        rw [(Clears.clearEntry c oh).history] at hx
        exact List.mem_of_mem_filter hx

theorem clearHistory (h : Owned c) {drop : ResourceId → Bool}
    (hdrop : ∀ r, drop r = true → r.assembly ≠ b) : Local b c (c.clearHistory drop) := by
  refine h.foldl_clearEntry fun oh hoh hdropped => ⟨hdrop _ hdropped, fun x hx hkey => ?_⟩
  rw [List.inj_on_of_nodup_map h.keys hx hoh hkey]
  exact hdrop _ hdropped

theorem nodeOpHistoryClear (h : Owned c) {a : CString} (ha : a ≠ b) :
    Local b c (c.nodeOpHistoryClear a) := by
  have hclear : Local b c (c.clearHistory fun r => r.assembly = a) :=
    h.clearHistory fun r hr => by rwa [of_decide_eq_true hr]
  refine hclear.trans ⟨?_, { Spares.refl b _ with resources := fun name => if_neg ha.symm }⟩
  refine hclear.owned.congr (fun _ => ⟨rfl, rfl⟩) rfl (List.Subset.refl _) rfl (fun r => Or.inr ?_)
    (fun r => ?_) hclear.owned.keys
  · simp only [Cape.nodeOpHistoryClear]
    split <;> rfl
  · simp only [Cape.nodeOpHistoryClear]
    split <;> rfl

end Owned

/-! ## Completing an operation -/

theorem opHistorySave_eq (c : Cape σ) (now : Nat) (r : ResourceId) (o : Nat) (ec : Int) :
    ∃ digests count, c.opHistorySave now r o ec =
      { c with
        digests := digests
        digestCount := count
        history := (c.opHistorySave now r o ec).history
        callOrder := (c.opHistorySave now r o ec).callOrder } := by
  have hentry : ∃ digests count, (c.opHistoryEntry r (c.ops o)).1 =
      { c with digests := digests, digestCount := count } := by
    unfold opHistoryEntry
    split
    · exact ⟨_, _, rfl⟩
    · split <;> exact ⟨_, _, rfl⟩
  simp only [opHistorySave]
  generalize c.opHistoryEntry r (c.ops o) = entry at hentry
  obtain ⟨mid, oh⟩ := entry
  obtain ⟨digests, count, rfl⟩ := hentry
  exact ⟨digests, count, rfl⟩

namespace Foreign

theorem opHistorySave (h : Foreign b o c) (hr : r.assembly ≠ b) (now : Nat) (ec : Int) :
    Local b c (c.opHistorySave now r o ec) := by
  obtain ⟨oh, hsaves⟩ := exists_saves c now r o ec
  have hkeys : ((c.opHistorySave now r o ec).history.map OperationHistory.rscId).Nodup := by
    rw [hsaves.history]
    exact nodup_keys_mapPut h.owned.keys
  have hold : ∀ x ∈ c.history, x.rscId = opHistoryKey (c.ops o) → x.resource.assembly ≠ b :=
    fun x hx hkey hb => h.apart x (List.mem_filter.mpr ⟨hx, decide_eq_true hb⟩) hkey
  have hnew : oh.resource.assembly ≠ b := by
    rw [hsaves.resource]
    cases hfind : c.findEntry (opHistoryKey (c.ops o)) with
    | none => exact hr
    | some old => exact hold old (mem_of_findEntry hfind) (rscId_of_findEntry hfind)
  have hhistory : (c.opHistorySave now r o ec).historyOf b = c.historyOf b := by
    rw [historyOf, hsaves.history]
    refine filter_mapPut (by simpa using hnew) fun x hx hkey => ?_
    simpa using hold x hx (hkey.trans hsaves.rscId)
  obtain ⟨digests, count, hc⟩ := opHistorySave_eq c now r o ec
  refine ⟨h.owned.same (Bookkeeping.opHistorySave c now r o ec).toSameMonitors hkeys, ?_⟩
  rw [hc] at hhistory ⊢
  exact { Spares.refl b c with history := hhistory }

theorem opHistoryRecord (h : Foreign b o c) {env : Env} {resource : Option ResourceId} {ec : Int}
    (hr : ∀ r ∈ resource, r.assembly ≠ b)
    (hok : c.opHistoryRecord env resource o ec = .ok c') : Local b c c' := by
  unfold Cape.opHistoryRecord at hok
  split at hok
  case isFalse =>
    rw [← Except.ok.inj hok]
    exact h.owned.stay b
  case isTrue =>
    obtain ⟨r, hfound, heq⟩ := bind_eq_ok.mp hok
    rw [← Except.ok.inj heq]
    cases resource with
    | none => cases hfound
    | some x =>
        cases hfound
        exact h.opHistorySave (hr _ rfl) env.now ec

end Foreign

theorem Owned.resourceCallback (h : Owned c) (hr : r.assembly ≠ b) (env : Env)
    (call : RecoverCall) : Local b c (c.resourceCallback env r call) := by
  cases call with
  | stateChanging => exact h.stay b
  | restart => exact h.monitorTimerDel hr
  | escalate =>
      have hdeleted := h.monitorTimerDel hr
      have hdestroyed : Local b (c.timerDel (c.resources r).monitorTimer)
          ((c.timerDel (c.resources r).monitorTimer).instanceDestroy r.assembly
            env.destroyReply) := hdeleted.owned.modifyCloud hr _
      exact hdeleted.trans hdestroyed

theorem Owned.resourceStateSet [Stopwatch σ] (h : Owned c) {env : Env}
    {resource : Option ResourceId} {op : PeOperation} {ec : Int}
    (hr : ∀ r ∈ resource, r.assembly ≠ b)
    (hok : c.resourceStateSet env resource op ec = .ok c') : Local b c c' := by
  unfold Cape.resourceStateSet at hok
  split at hok
  · rw [← Except.ok.inj hok]
    exact h.stay b
  · obtain ⟨r, hfound, heq⟩ := bind_eq_ok.mp hok
    rw [← Except.ok.inj heq]
    have hne : r.assembly ≠ b := by
      cases resource with
      | none => cases hfound
      | some x =>
          cases hfound
          exact hr _ rfl
    have hset : ∀ recover, Local b c (c.modifyResource r ({ · with recover := recover })) :=
      fun _ => h.modifyResource hne fun _ => ⟨rfl, Or.inr rfl⟩
    have hcalls := foldl_rel (R := fun c c' : Cape σ => Owned c → Local b c c')
      (fun c h => h.stay b) (fun h h' hc => (h hc).trans (h' (h hc).owned))
      (fun c call hc => hc.resourceCallback hne env call)
    exact (hset _).trans (hcalls _ _ (hset _).owned)

namespace Foreign

theorem monitorTimerAdd (h : Foreign b o c) (hr : (c.ops o).hostname = r.assembly) :
    Local b c (c.monitorTimerAdd r o) := by
  have hresource : ∀ r', ((c.monitorTimerAdd r o).resources r').monitorOp =
      (c.resources r').monitorOp ∧ ((c.monitorTimerAdd r o).resources r').monitorTimer =
        if r' = r then c.timerCount + 1 else (c.resources r').monitorTimer := by
    intro r'
    by_cases hr' : r' = r <;> simp [Cape.monitorTimerAdd, hr']
  have hmem : ∀ x ∈ (c.monitorTimerAdd r o).monitorTimers,
      x ∈ c.monitorTimers ∧ x.1 ≤ c.timerCount ∨ x = (c.timerCount + 1, o) := by
    intro x hx
    rcases List.mem_append.mp hx with hold | hnew
    · exact Or.inl ⟨hold, (h.owned.armed x hold).2⟩
    · exact Or.inr (List.mem_singleton.mp hnew)
  constructor
  case owned =>
    constructor
    case resource => exact h.owned.resource
    case monitorOp =>
      intro r' x hr'
      rw [(hresource r').1] at hr'
      exact h.owned.monitorOp hr'
    case armed =>
      intro x hx
      rcases hmem x hx with ⟨hold, hle⟩ | rfl
      · exact ⟨(h.owned.armed x hold).1, hle.trans (Nat.le_succ _)⟩
      · exact ⟨h.lt, le_rfl⟩
    case monitorTimer =>
      intro x hx r' hhandle
      rw [(hresource r').2] at hhandle
      have hnamed := h.owned.named r'
      rcases hmem x hx with ⟨hold, hle⟩ | rfl <;> split at hhandle
      · omega
      · exact h.owned.monitorTimer x hold r' hhandle
      case inr.isTrue heq =>
        rw [heq]
        exact hr
      · simp only at hhandle
        omega
    case handles =>
      intro x hx y hy hxy
      rcases hmem x hx with ⟨hx, hlex⟩ | rfl <;> rcases hmem y hy with ⟨hy, hley⟩ | rfl
      · exact h.owned.handles x hx y hy hxy
      · simp only at hxy
        omega
      · simp only at hxy
        omega
      · rfl
    case named =>
      intro r'
      have hnamed := h.owned.named r'
      rw [(hresource r').2]
      simp only [Cape.monitorTimerAdd]
      split <;> omega
    case keys => exact h.owned.keys
  case spares =>
    refine { Spares.refl b c with resources := fun name => ?_, timers := ?_ }
    · refine Function.update_of_ne ?_ _ _
      rintro rfl
      exact h.hostname hr
    · have hnew : List.filter (fun x => (c.ops x.2).hostname = b) [(c.timerCount + 1, o)] = [] := by
        simp [h.hostname]
      exact (List.filter_append c.monitorTimers [(c.timerCount + 1, o)]).trans
        ((congrArg _ hnew).trans (List.append_nil _))

variable [Stopwatch σ] {d : Deployable} {env : Env} {ec : Int}

theorem resourceActionCompleted (h : Foreign b o c)
    (hok : c.resourceActionCompleted d env o ec = .ok c') : Local b c c' := by
  have hr : ∀ r ∈ d.resource? (c.ops o).hostname (c.ops o).rname,
      (c.ops o).hostname = r.assembly := by
    intro r hr
    rw [Deployable.resource?_eq_some hr]
  have hne : ∀ r ∈ d.resource? (c.ops o).hostname (c.ops o).rname, r.assembly ≠ b := by
    intro r hmem
    rw [← hr r hmem]
    exact h.hostname
  simp only [Cape.resourceActionCompleted] at hok
  split at hok
  · cases hok
  obtain ⟨c₁, hrecord, hok⟩ := bind_eq_ok.mp hok
  obtain ⟨c₂, hset, hrelease⟩ := bind_eq_ok.mp hok
  have hadded : Local b c (c.timesExecutedAdd o) :=
    h.owned.modifyOp h.hostname fun _ => ⟨rfl, rfl, rfl⟩
  have hrecorded := hadded.trans ((h.next hadded).opHistoryRecord hne hrecord)
  have hconfirmed : Local b c₁ (c₁.confirmFirst o ec) := by
    unfold confirmFirst
    split
    · exact hrecorded.owned.peResourceCompleted b o ec
    · exact hrecorded.owned.stay b
  have hstate := hconfirmed.trans (hconfirmed.owned.resourceStateSet hne hset)
  have hscheduled : Local b c
      (if (c.ops o).Unexpected ec then c₂.scheduleProcessing else c₂) := by
    refine (hrecorded.trans hstate).trans ?_
    split
    · exact hstate.owned.scheduleProcessing b
    · exact hstate.owned.stay b
  have hnext := h.next hscheduled
  rcases resourceActionRelease_ok hrelease with ⟨-, rfl⟩ | ⟨r, hresource, -, rfl⟩
  · exact hscheduled.trans (hnext.owned.peResourceUnref hnext.hostname)
  · refine hscheduled.trans (hnext.monitorTimerAdd ?_)
    rw [hscheduled.spares.hostname h.lt]
    exact hr r hresource

theorem resourceActionCompletion {sshRc : Int} (h : Foreign b o c)
    (hok : c.resourceActionCompletion d env o sshRc = .ok c') : Local b c c' := by
  obtain ⟨mid, hmid, heq⟩ := bind_eq_ok.mp hok
  rw [← Except.ok.inj heq]
  have hcompleted := h.resourceActionCompleted hmid
  have hnext := h.next hcompleted
  exact hcompleted.trans (hnext.owned.peResourceUnref hnext.hostname)

omit [Stopwatch σ] in
theorem hand (h : Foreign b o c) : Local b c (c.hand o) := by
  have href : Local b c (c.peResourceRef o) :=
    h.owned.modifyOp h.hostname fun _ => ⟨rfl, rfl, rfl⟩
  exact ⟨{ href.owned with }, { href.spares with }⟩

end Foreign

/-! ## Firing an operation -/

theorem Owned.create (h : Owned c) (graph : Nat) {spec : OpSpec} (hspec : spec.hostname ≠ b) :
    Local b c (World.execRscAction c graph spec) := by
  have hold : ∀ {x}, x < c.opCount → (World.execRscAction c graph spec).ops x = c.ops x :=
    fun hx => Function.update_of_ne (Nat.ne_of_lt hx) _ _
  constructor
  case owned =>
    constructor
    case resource =>
      intro x r hr
      by_cases hx : x = c.opCount
      · simp [World.execRscAction, hx] at hr
      · simp only [World.execRscAction, Function.update_of_ne hx] at hr ⊢
        exact h.resource hr
    case monitorOp =>
      intro r x hr
      obtain ⟨hlt, hresource⟩ := h.monitorOp hr
      exact ⟨Nat.lt_succ_of_lt hlt, by rw [hold hlt, hresource]⟩
    case armed => exact fun x hx => ⟨Nat.lt_succ_of_lt (h.armed x hx).1, (h.armed x hx).2⟩
    case monitorTimer =>
      intro x hx r hr
      rw [hold (h.armed x hx).1]
      exact h.monitorTimer x hx r hr
    case handles =>
      intro x hx y hy hxy
      rw [hold (h.armed x hx).1, hold (h.armed y hy).1]
      exact h.handles x hx y hy hxy
    case named => exact h.named
    case keys => exact h.keys
  case spares =>
    refine { Spares.refl b c with
      toSameKeys := .of_ops (Nat.le_succ _) fun x hx => hold hx
      ops := fun x hx _ => hold hx
      created := fun x hge hlt => ?_
      timers := List.filter_congr fun x hx => ?_ }
    · obtain rfl : x = c.opCount := by
        simp only [World.execRscAction] at hlt
        omega
      simpa [World.execRscAction] using hspec
    · rw [hold (h.armed x hx).1]

namespace Foreign

theorem setResource (h : Foreign b o c) {resource : Option ResourceId}
    (hr : ∀ r ∈ resource, (c.ops o).hostname = r.assembly)
    (hnot : ∀ r, (c.resources r).monitorOp ≠ some o) : Local b c (c.setResource o resource) := by
  have hother : ∀ x, x ≠ o → (c.setResource o resource).ops x = c.ops x :=
    fun x hx => Function.update_of_ne hx _ _
  have hhost : ∀ x, ((c.setResource o resource).ops x).hostname = (c.ops x).hostname := by
    intro x
    by_cases hx : x = o <;> simp [Cape.setResource, Cape.modifyOp, hx]
  constructor
  case owned =>
    constructor
    case resource =>
      intro x r hx
      rw [hhost]
      by_cases hxo : x = o
      · subst hxo
        exact hr r (by simpa [Cape.setResource, Cape.modifyOp] using hx)
      · rw [hother x hxo] at hx
        exact h.owned.resource hx
    case monitorOp =>
      intro r x hx
      obtain ⟨hlt, hresource⟩ := h.owned.monitorOp hx
      refine ⟨hlt, ?_⟩
      rw [hother x ?_]
      · exact hresource
      · rintro rfl
        exact hnot r hx
    case armed => exact h.owned.armed
    case monitorTimer =>
      intro x hx r hr
      rw [hhost]
      exact h.owned.monitorTimer x hx r hr
    case handles =>
      intro x hx y hy hxy
      rw [hhost, hhost]
      exact h.owned.handles x hx y hy hxy
    case named => exact h.owned.named
    case keys => exact h.owned.keys
  case spares =>
    refine { Spares.refl b c with
      toSameKeys := .of_core le_rfl fun x _ => (Quiet.setResource c o resource).core x
      ops := fun x _ hb => hother x ?_
      created := fun x hold hnew => absurd hnew (Nat.not_lt.mpr hold)
      timers := List.filter_congr fun x _ => ?_ }
    · rintro rfl
      exact h.hostname hb
    · rw [hhost]

theorem startMonitor (h : Foreign b o c) (hr : (c.ops o).resource = some r) :
    Local b c (c.startMonitor r o) := by
  have hne : r.assembly ≠ b := by
    rw [← h.owned.resource hr]
    exact h.hostname
  have hstopped := h.owned.setStopped hne false
  have href : Local b c ((c.setStopped r false).peResourceRef o) :=
    hstopped.trans (hstopped.owned.modifyOp h.hostname fun _ => ⟨rfl, rfl, rfl⟩)
  have hop : (((c.setStopped r false).peResourceRef o).ops o).resource = some r := by
    simpa [Cape.setStopped, Cape.peResourceRef, Cape.modifyOp, Cape.modifyResource] using hr
  have hresource : ∀ r', ((c.startMonitor r o).resources r').monitorTimer =
      (((c.setStopped r false).peResourceRef o).resources r').monitorTimer := by
    intro r'
    by_cases hr' : r' = r <;> simp [Cape.startMonitor, Cape.modifyResource, hr']
  refine href.trans ⟨{ href.owned with
    monitorOp := fun {r' x} hx => ?_
    monitorTimer := fun x hx r' hhandle => ?_
    named := fun r' => ?_ }, { Spares.refl b _ with resources := fun name => ?_ }⟩
  · by_cases hr' : r' = r
    · subst hr'
      obtain rfl : o = x := by simpa [Cape.startMonitor, Cape.modifyResource] using hx
      exact ⟨(h.next href).lt, hop⟩
    · refine href.owned.monitorOp (r := r') ?_
      simpa [Cape.startMonitor, Cape.modifyResource, Function.update_of_ne hr'] using hx
  · rw [hresource] at hhandle
    exact href.owned.monitorTimer x hx r' hhandle
  · rw [hresource]
    exact href.owned.named r'
  · refine Function.update_of_ne ?_ _ _
    rintro rfl
    exact hne rfl

theorem settle (h : Foreign b o c) (returnCode : Int) : Local b c (c.settle o returnCode) := by
  have hcompleted := h.owned.peResourceCompleted b o returnCode
  exact hcompleted.trans (hcompleted.owned.peResourceUnref (h.next hcompleted).hostname)

theorem executed [Stopwatch σ] {d : Deployable} {env : Env} {state : RecoverState}
    {queued : Bool} (h : Foreign b o c) (hnot : ∀ r, (c.resources r).monitorOp ≠ some o)
    (hexec : c.Executed d env o state c' queued) : Local b c c' := by
  have hhost : ∀ {r}, d.resource? (c.ops o).hostname (c.ops o).rname = some r →
      (c.ops o).hostname = r.assembly := fun hr => by rw [Deployable.resource?_eq_some hr]
  have hne : ∀ {r}, d.resource? (c.ops o).hostname (c.ops o).rname = some r →
      r.assembly ≠ b := fun hr => hhost hr ▸ h.hostname
  have hset : ∀ {r}, d.resource? (c.ops o).hostname (c.ops o).rname = r →
      Local b c (c.setResource o r) := by
    intro resource hresource
    refine h.setResource (fun r hr => hhost ?_) hnot
    rw [hresource]
    exact hr
  cases hexec with
  | offline hstate hok =>
      have hdone := h.resourceActionCompleted hok
      split
      case h_1 r _ hr => exact hdone.trans (hdone.owned.setStopped (hne hr) true)
      case h_2 => exact hdone
  | foreign => exact (hset rfl).trans ((h.next (hset rfl)).settle _)
  | monitored hmethod hname hr =>
      have hstopped := (hset hr).trans ((hset hr).owned.setStopped (hne hr) false)
      exact hstopped.trans ((h.next hstopped).settle _)
  | @monitor r hmethod hname hr =>
      have hop : ((c.setResource o (some r)).ops o).resource = some r := by
        simp [Cape.setResource, Cape.modifyOp]
      have hmonitor := (hset hr).trans ((h.next (hset hr)).startMonitor hop)
      exact hmonitor.trans (h.next hmonitor).hand
  | probe hmethod hname hr => exact (hset hr).trans (h.next (hset hr)).hand
  | start => exact (hset rfl).trans (h.next (hset rfl)).hand
  | stop hmethod hr =>
      have hstop := (hset hr).trans ((hset hr).owned.stopMonitor (hne hr))
      have hhand := hstop.trans (h.next hstop).hand
      exact hhand.trans (hhand.owned.setStopped (hne hr) true)
  | delete =>
      generalize hresource : d.resource? (c.ops o).hostname (c.ops o).rname = resource
      have hop : ((c.setResource o resource).ops o).resource = resource := by
        simp [Cape.setResource, Cape.modifyOp]
      have hclear : Local b (c.setResource o resource) ((c.setResource o resource).clearHistory
          fun r => some r = ((c.setResource o resource).ops o).resource) :=
        (hset hresource).owned.clearHistory fun r hr =>
          hne (by rw [hresource, of_decide_eq_true hr, hop])
      have hcleared := (hset hresource).trans hclear
      exact hcleared.trans ((h.next hcleared).settle ocfOk)

end Foreign

end Cape

/-! ## The daemon -/

structure View (σ : Type) where
  assembly : Assembly σ
  cloud : Instance
  resources : CString → Resource σ
  ops : Nat → Option PeOperation
  timers : List (Nat × Nat)
  history : List OperationHistory

namespace World

variable {σ : Type}

def view (w : World σ) (b : CString) : View σ where
  assembly := w.assemblies b
  cloud := w.cape.cloud b
  resources name := w.cape.resources ⟨b, name⟩
  ops o := if o < w.cape.opCount ∧ (w.cape.ops o).hostname = b then some (w.cape.ops o) else none
  timers := w.cape.timersOf b
  history := w.cape.historyOf b

def concern (w : World σ) : Event → Option CString
  | .job a _ _ | .timer a _ _ => some a
  | .monitorTimer handle _ =>
      (w.cape.monitorTimers.find? (·.1 = handle)).map fun x => (w.cape.ops x.2).hostname
  | .fire (.rsc spec) _ => some spec.hostname
  | .fire .confirmed _ | .processJob | .processNextJob _ | .runGraphReturn _ => none

def KeysApart (b : CString) (entries : List OperationHistory) (c : Cape σ) : Prop :=
  ∀ o < c.opCount, (c.ops o).hostname ≠ b →
    ∀ oh ∈ entries, oh.rscId ≠ Cape.opHistoryKey (c.ops o)

instance (b : CString) (entries : List OperationHistory) (c : Cape σ) :
    Decidable (KeysApart b entries c) :=
  inferInstanceAs (Decidable (∀ o < c.opCount, _ → ∀ oh ∈ entries, _))

variable {b : CString} {entries : List OperationHistory} {c c' : Cape σ} {w w' : World σ}

theorem KeysApart.of_sameKeys (h : KeysApart b entries c') (hkeys : c.SameKeys c') :
    KeysApart b entries c := by
  intro o ho hne
  rw [← hkeys.key o ho]
  refine h o (ho.trans_le hkeys.opCount) ?_
  rwa [hkeys.hostname ho]

theorem view_eq (hassembly : w'.assemblies b = w.assemblies b) (h : w.cape.Spares b w'.cape) :
    w'.view b = w.view b := by
  have hops : (fun o => if o < w'.cape.opCount ∧ (w'.cape.ops o).hostname = b then
      some (w'.cape.ops o) else none) =
      fun o => if o < w.cape.opCount ∧ (w.cape.ops o).hostname = b then
        some (w.cape.ops o) else none := by
    funext o
    by_cases ho : o < w.cape.opCount
    · by_cases hb : (w.cape.ops o).hostname = b
      · rw [h.ops o ho hb, if_pos ⟨ho.trans_le h.opCount, hb⟩, if_pos ⟨ho, hb⟩]
      · rw [if_neg, if_neg]
        · exact fun hand => hb hand.2
        · exact fun hand => hb ((h.hostname ho).symm.trans hand.2)
    · rw [if_neg, if_neg]
      · exact fun hand => ho hand.1
      · exact fun hand => h.created o (Nat.le_of_not_lt ho) hand.1 hand.2
  simp only [view, hassembly, h.cloud, h.resources, hops, h.timers, h.history]

variable [Stopwatch σ] {d : Deployable} {e : Event} {a : CString} {env : Env}
  {outputs : List Output} {asm : Assembly σ}

theorem local_receive_quiet (howned : c.Owned) (ha : a ≠ b) (hquiet : ∀ x ∈ outputs, x.Quiet)
    (hcalls : outputs.foldlM (Cape.receive d a env) c = .ok c') : c.Local b c' := by
  induction outputs generalizing c with
  | nil =>
      cases hcalls
      exact howned.stay b
  | cons x outputs ih =>
      rw [List.foldlM_cons] at hcalls
      obtain ⟨mid, hx, hrest⟩ := bind_eq_ok.mp hcalls
      have hmid : c.Local b mid := by
        cases x with
        | stateChanging =>
            cases hx
            exact howned.scheduleProcessing b
        | address address =>
            cases hx
            exact howned.modifyCloud ha _
        | restarted => exact (hquiet _ List.mem_cons_self).elim
        | actionCompleted o sshRc => exact (hquiet _ List.mem_cons_self).elim
      exact hmid.trans (ih hmid.owned (fun y hy => hquiet y (List.mem_cons_of_mem x hy)) hrest)

theorem local_effect (haccounted : w.ledger.Accounted) (howned : w.cape.Owned) (ha : a ≠ b)
    (hapart : KeysApart b (w.cape.historyOf b) w.cape)
    (heffect : (w.assemblies a).Effect asm outputs)
    (hcalls : outputs.foldlM (Cape.receive d a env) w.cape = .ok c) : w.cape.Local b c := by
  cases heffect with
  | kept hquiet => exact local_receive_quiet howned ha hquiet hcalls
  | @completed o sshRc hactions =>
      have hmem : o ∈ w.actions a := by simp [actions, hactions]
      obtain ⟨hlt, hhost⟩ := haccounted.queued hmem
      have hne : (w.cape.ops o).hostname ≠ b := by
        rintro rfl
        exact ha hhost.symm
      have hdone : w.cape.resourceActionCompletion d env o sshRc = .ok c := by
        simpa [Cape.receive] using hcalls
      have hforeign : w.cape.Foreign b o := ⟨howned, hlt, hne, hapart o hlt hne⟩
      exact hforeign.resourceActionCompletion hdone
  | restarted hactions =>
      obtain rfl := Except.ok.inj hcalls
      have hscheduled := howned.scheduleProcessing b
      have hcleared := hscheduled.trans (hscheduled.owned.nodeOpHistoryClear ha)
      exact hcleared.trans (hcleared.owned.modifyCloud ha _)

theorem Transition.spares (h : Transition d w e w') (hsound : ∀ a, (w.assemblies a).Sound)
    (haccounted : w.ledger.Accounted) (howned : w.cape.Owned) (hother : w.concern e ≠ some b)
    (hapart : KeysApart b (w.cape.historyOf b) w'.cape) :
    w'.assemblies b = w.assemblies b ∧ w.cape.Local b w'.cape := by
  have hbefore : KeysApart b (w.cape.historyOf b) w.cape :=
    hapart.of_sameKeys (Ledger.moves_change haccounted (h.change hsound)).sameKeys
  have hupdate : ∀ {a : CString} {asm : Assembly σ}, a ≠ b →
      Function.update w.assemblies a asm b = w.assemblies b :=
    fun ha => Function.update_of_ne ha.symm _ _
  -- handles are unique, up to the assembly of their operations
  have htimerHost : ∀ {handle o : Nat} {env : Env}, (handle, o) ∈ w.cape.monitorTimers →
      w.concern (.monitorTimer handle env) ≠ some b → (w.cape.ops o).hostname ≠ b := by
    intro handle o env htimer hother
    obtain ⟨x, hfind⟩ : ∃ x, w.cape.monitorTimers.find? (·.1 = handle) = some x :=
      Option.isSome_iff_exists.mp (List.find?_isSome.mpr ⟨_, htimer, by simp⟩)
    have hx : x.1 = handle := by simpa using List.find?_some hfind
    rw [← howned.handles x (List.mem_of_find?_eq_some hfind) _ htimer hx]
    simpa [concern, hfind] using hother
  have hdeleted : ∀ {handle o : Nat}, (handle, o) ∈ w.cape.monitorTimers →
      (w.cape.ops o).hostname ≠ b → w.cape.Local b (w.cape.timerDel handle) := by
    intro handle o htimer hne
    refine howned.timerDel fun x hx heq => ?_
    rwa [howned.handles x hx _ htimer heq]
  cases h with
  | @job a job env asm outputs c hgraph hjob hreact hcalls =>
      have ha : a ≠ b := fun heq => hother (congrArg some heq)
      obtain ⟨-, heffect⟩ := Assembly.reactJob_sound (hsound _) hjob hreact
      exact ⟨hupdate ha, local_effect haccounted howned ha hbefore heffect hcalls⟩
  | @timer a handle timer env asm outputs c hgraph htimer hreact hcalls =>
      have ha : a ≠ b := fun heq => hother (congrArg some heq)
      refine ⟨hupdate ha, ?_⟩
      obtain ⟨-, heffect | ⟨-, -, hquiet⟩⟩ := Assembly.reactTimer_sound (hsound _) htimer hreact
      · exact local_effect haccounted howned ha hbefore heffect hcalls
      · exact local_receive_quiet howned ha hquiet hcalls
  | @monitorOffline handle o env c hgraph htimer hstate hok =>
      have hne := htimerHost htimer hother
      have hlt : o < w.cape.opCount := haccounted.armed _ htimer
      have hforeign : w.cape.Foreign b o := ⟨howned, hlt, hne, hbefore o hlt hne⟩
      have hdel := hdeleted htimer hne
      exact ⟨rfl, hdel.trans ((hforeign.next hdel).resourceActionCompleted hok)⟩
  | @monitorRequest handle o env command hgraph htimer hstate =>
      have hne := htimerHost htimer hother
      have hlt : o < w.cape.opCount := haccounted.armed _ htimer
      have hforeign : w.cape.Foreign b o := ⟨howned, hlt, hne, hbefore o hlt hne⟩
      have hdel := hdeleted htimer hne
      exact ⟨hupdate hne, hdel.trans (hforeign.next hdel).hand⟩
  | processJob hgraph hpos => exact ⟨rfl, howned.engine b .processJob⟩
  | processNextJob hgraph hmem => exact ⟨rfl, howned.engine b (.processNextJob hgraph hmem)⟩
  | confirmed hgraph => exact ⟨rfl, howned.engine b .confirmed⟩
  | @fire graph spec env c queued command hgraph hexec =>
      have hspec : spec.hostname ≠ b := fun heq => hother (congrArg some heq)
      have hcreated := howned.create graph hspec
      have hhost : ((execRscAction w.cape graph spec).ops w.cape.opCount).hostname ≠ b := by
        simpa [execRscAction] using hspec
      have hfired := hapart.of_sameKeys (sameKeys_fired haccounted hexec)
      have hforeign : (execRscAction w.cape graph spec).Foreign b w.cape.opCount :=
        ⟨hcreated.owned, Nat.lt_succ_self _, hhost, hfired _ (Nat.lt_succ_self _) hhost⟩
      have hnot : ∀ r, ((execRscAction w.cape graph spec).resources r).monitorOp ≠
          some w.cape.opCount := fun r hr => (howned.monitorOp hr).1.ne rfl
      refine ⟨?_, hcreated.trans (hforeign.executed hnot hexec)⟩
      cases queued with
      | false => rfl
      | true => exact hupdate hspec
  | returned hgraph hconfirmed => exact ⟨rfl, howned.engine b (.returned hgraph hconfirmed)⟩

/-- Seen from an assembly that does not exist, every event is about another one. -/
theorem step_owned (hsound : ∀ a, (w.assemblies a).Sound) (haccounted : w.ledger.Accounted)
    (howned : w.cape.Owned) (hstep : step d w e = .ok w') : w'.cape.Owned := by
  obtain ⟨b, hb⟩ := Infinite.exists_notMem_finset
    ((w.concern e).toList ++ w.cape.history.map (·.resource.assembly)).toFinset
  rw [List.mem_toFinset, List.mem_append, not_or, Option.mem_toList, List.mem_map] at hb
  have hnone : w.cape.historyOf b = [] :=
    List.filter_eq_nil_iff.mpr fun oh hoh heq => hb.2 ⟨oh, hoh, of_decide_eq_true heq⟩
  refine ((step_transition hsound hstep).spares hsound haccounted howned hb.1 ?_).2.owned
  rw [hnone]
  exact fun o ho hne oh hoh => nomatch hoh

structure Partitioned (w : World σ) : Prop where
  sound : ∀ a, (w.assemblies a).Sound
  accounted : w.ledger.Accounted
  owned : w.cape.Owned

theorem Partitioned.step (h : w.Partitioned) (hstep : World.step d w e = .ok w') :
    w'.Partitioned where
  sound := step_sound h.sound hstep
  accounted := (Ledger.moves_change h.accounted (step_change h.sound hstep)).accounted h.accounted
  owned := step_owned h.sound h.accounted h.owned hstep

theorem load_partitioned (d : Deployable) (errno : ResourceId → Int) (answers : CString → Env) :
    (load d errno answers : World σ).Partitioned where
  sound := load_sound d errno answers
  accounted := load_accounted d errno answers
  owned := by
    obtain ⟨cloud, hcape⟩ := load_cape (σ := σ) d errno answers
    rw [hcape]
    constructor <;> simp [empty]

theorem reaches_partitioned {errno : ResourceId → Int} {answers : CString → Env}
    {events : List Event} (h : Reaches d errno answers events w) : w.Partitioned :=
  run_invariant_of_step (fun hparts hstep => hparts.step hstep)
    (load_partitioned d errno answers) h

/--
From every state that is reached, events about other assemblies leave everything as it is that the
daemon keeps for this one: its transport, its instance, its resources, its operations, their timers
and its entries of the history, unless an operation on another assembly has the key of an entry.
-/
theorem view_unchanged {errno : ResourceId → Int} {answers : CString → Env}
    {before events : List Event} (h : Reaches d errno answers before w)
    (hrun : run (step d) w events = .ok w')
    (hother : Along (step d) (fun w e => w.concern e ≠ some b) w events)
    (hapart : KeysApart b (w.cape.historyOf b) w'.cape) : w'.view b = w.view b := by
  obtain ⟨-, hview⟩ := run_invariant
    (I := fun v : World σ => v.Partitioned ∧
      (KeysApart b (w.cape.historyOf b) v.cape → v.view b = w.view b))
    (P := fun w e => w.concern e ≠ some b)
    (fun {v e v'} ⟨hparts, hview⟩ hother hstep => by
      refine ⟨hparts.step hstep, fun hapart => ?_⟩
      have hmoves := Ledger.moves_change hparts.accounted (step_change hparts.sound hstep)
      have hbefore := hview (hapart.of_sameKeys hmoves.sameKeys)
      have hhistory : v.cape.historyOf b = w.cape.historyOf b := congrArg View.history hbefore
      rw [← hhistory] at hapart
      obtain ⟨hassembly, hlocal⟩ := (step_transition hparts.sound hstep).spares hparts.sound
        hparts.accounted hparts.owned hother hapart
      exact (view_eq hassembly hlocal.spares).trans hbefore)
    ⟨reaches_partitioned h, fun _ => rfl⟩ hother hrun
  exact hview hapart

def fooNode : Deployable := withNode "foo".toList (by decide)

def fooFails : List Event :=
  [.job "foo".toList .myInstanceStateGet workingEnv, .job "foo".toList .connectExecute workingEnv,
    .job "foo".toList .sshAssemblyConnect workingEnv,
    .job "foo".toList (.assemblySshExec 0) { workingEnv with exitStatus := 1 }]

/-- The restart of the second node leaves the monitored service of the first one alone. -/
theorem view_unchanged_fooFails :
    ∃ w w' : World Ring, Reaches fooNode (fun _ => 0) (fun _ => workingEnv) monitoring w ∧
      run (step fooNode) w fooFails = .ok w' ∧ (w'.cape.cloud "foo".toList).live.length = 2 ∧
      (w.view bar).timers ≠ [] ∧ w'.view bar = w.view bar := by
  have hends : endsIn (step fooNode)
      (load fooNode (fun _ => 0) fun _ => workingEnv : World Ring) monitoring (fun w =>
        endsIn (step fooNode) w fooFails (fun w' =>
          decide ((w'.cape.cloud "foo".toList).live.length = 2 ∧ (w.view bar).timers ≠ [] ∧
            KeysApart bar (w.cape.historyOf bar) w'.cape)) &&
        decide (Along (step fooNode) (fun w e => w.concern e ≠ some bar) w fooFails)) = true := by
    decide +kernel
  obtain ⟨w, hreach, htest⟩ := exists_of_endsIn hends
  rw [Bool.and_eq_true, decide_eq_true_eq] at htest
  obtain ⟨w', hrun, hend⟩ := exists_of_endsIn htest.1
  obtain ⟨hlive, htimers, hapart⟩ := of_decide_eq_true hend
  exact ⟨w, w', hreach, hrun, hlive, htimers, view_unchanged hreach hrun htest.2 hapart⟩

end World

end PacemakerCloud
