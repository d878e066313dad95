import PacemakerCloud.Daemon.Completion

/-!
# Runs of the operation history

Operations are created, their results saved and the operations released, and the entries
of an assembly or of a resource are cleared, in any order and with anything else of the
daemon in between.
-/

namespace PacemakerCloud

open Foundation

/-- What happens to the history; `other` is a step of the rest of the daemon. -/
inductive HistoryEvent (σ : Type) where
  | exec (graph : Nat) (spec : OpSpec)
  | save (now : Nat) (r : ResourceId) (o : Nat) (ec : Int)
  | unref (o : Nat)
  | clear (a : CString)
  | delete (o : Nat)
  | other (next : Cape σ)

namespace Cape

variable {σ : Type} {c c' c'' : Cape σ}

def historyStep (c : Cape σ) : HistoryEvent σ → Except Fault (Cape σ)
  | .exec graph spec => .ok (World.execRscAction c graph spec)
  | .save now r o ec => .ok (c.opHistorySave now r o ec)
  | .unref o => .ok (c.peResourceUnref o)
  | .clear a => .ok (c.nodeOpHistoryClear a)
  | .delete o => .ok (c.opHistoryDelete o)
  | .other next => .ok next

def findEntry (c : Cape σ) (key : CString) : Option OperationHistory :=
  c.history.find? (·.rscId = key)

/-! ## Creating operations -/

structure DigestsCreated (c : Cape σ) : Prop where
  created : ∀ o < c.opCount, (c.ops o).opDigest < c.digestCount
  unused : ∀ o, c.opCount ≤ o → (c.ops o).opDigest = 0

theorem DigestsCreated.lt (h : c.DigestsCreated) {o : Nat} (ho : o < c.opCount) (x : Nat) :
    (c.ops x).opDigest < c.digestCount := by
  by_cases hx : x < c.opCount
  · exact h.created x hx
  · rw [h.unused x (Nat.le_of_not_lt hx)]
    exact Nat.zero_lt_of_lt (h.created o ho)

/-- The history stays as it is, and each operation that is created has a new digest. -/
structure Elsewhere (c c' : Cape σ) : Prop where
  history : c'.history = c.history
  callOrder : c'.callOrder = c.callOrder
  opCount : c.opCount ≤ c'.opCount
  digestCount : c.digestCount ≤ c'.digestCount
  digests : ∀ digest < c.digestCount, c'.digests digest = c.digests digest
  opDigest : ∀ o, o < c.opCount ∨ c'.opCount ≤ o → (c'.ops o).opDigest = (c.ops o).opDigest
  created : ∀ o, c.opCount ≤ o → o < c'.opCount →
    c.digestCount ≤ (c'.ops o).opDigest ∧ (c'.ops o).opDigest < c'.digestCount

namespace Elsewhere

theorem execRscAction (c : Cape σ) (graph : Nat) (spec : OpSpec) :
    Elsewhere c (World.execRscAction c graph spec) where
  history := rfl
  callOrder := rfl
  opCount := Nat.le_succ _
  digestCount := Nat.le_succ _
  digests _ hdigest := Function.update_of_ne (Nat.ne_of_lt hdigest) _ _
  opDigest o ho := by
    have hne : o ≠ c.opCount := by
      simp only [World.execRscAction] at ho
      omega
    simp [World.execRscAction, Function.update_of_ne hne]
  created o hold hnew := by
    obtain rfl : o = c.opCount := by
      simp only [World.execRscAction] at hnew
      omega
    simp [World.execRscAction]

theorem digestsCreated (h : Elsewhere c c') (hcreated : c.DigestsCreated) :
    c'.DigestsCreated where
  created o ho := by
    by_cases hold : o < c.opCount
    · rw [h.opDigest o (Or.inl hold)]
      exact (hcreated.created o hold).trans_le h.digestCount
    · exact (h.created o (Nat.le_of_not_lt hold) ho).2
  unused o ho := by
    rw [h.opDigest o (Or.inr ho)]
    exact hcreated.unused o (h.opCount.trans ho)

end Elsewhere

/-! ## Clearing -/

theorem digestFree_text (c : Cape σ) (digest x : Nat) :
    ((c.digestFree digest).digests x).text = (c.digests x).text := by
  by_cases hx : x = digest
  · simp [digestFree, hx]
  · simp [digestFree, Function.update_of_ne hx]

theorem digestFree_live {digest x : Nat} (h : x ≠ digest) (c : Cape σ) :
    ((c.digestFree digest).digests x).live = (c.digests x).live := by
  simp [digestFree, Function.update_of_ne h]

/--
Some entries are dropped and their digests freed.  Beside those, only digests of
operations are freed.
-/
structure Clears (c c' : Cape σ) (dropped : List OperationHistory) : Prop where
  history : c'.history = c.history.filter fun x => ∀ oh ∈ dropped, x.rscId ≠ oh.rscId
  callOrder : c'.callOrder = c.callOrder
  opCount : c'.opCount = c.opCount
  digestCount : c'.digestCount = c.digestCount
  opDigest : ∀ o, (c'.ops o).opDigest = (c.ops o).opDigest
  text : ∀ digest, (c'.digests digest).text = (c.digests digest).text
  live : ∀ digest, (∀ o, (c.ops o).opDigest ≠ digest) →
    (∀ oh ∈ dropped, oh.opDigest ≠ digest) →
      (c'.digests digest).live = (c.digests digest).live

namespace Clears

theorem refl (c : Cape σ) : Clears c c [] :=
  ⟨by simp, rfl, rfl, rfl, fun _ => rfl, fun _ => rfl, fun _ _ _ => rfl⟩

theorem trans {dropped dropped' : List OperationHistory} (h : Clears c c' dropped)
    (h' : Clears c' c'' dropped') : Clears c c'' (dropped ++ dropped') where
  history := by
    rw [h'.history, h.history, List.filter_filter]
    refine List.filter_congr fun x _ => ?_
    rw [Bool.and_comm]
    simp [or_imp, forall_and]
  callOrder := h'.callOrder.trans h.callOrder
  opCount := h'.opCount.trans h.opCount
  digestCount := h'.digestCount.trans h.digestCount
  opDigest o := (h'.opDigest o).trans (h.opDigest o)
  text digest := (h'.text digest).trans (h.text digest)
  live digest hops hdropped := by
    rw [h'.live digest (fun o => by rw [h.opDigest o]; exact hops o)
        fun oh hoh => hdropped oh (List.mem_append_right _ hoh),
      h.live digest hops fun oh hoh => hdropped oh (List.mem_append_left _ hoh)]

theorem peResourceUnref (c : Cape σ) (o : Nat) : Clears c (c.peResourceUnref o) [] := by
  have hops : ∀ x, ((c.peResourceUnref o).ops x).opDigest = (c.ops x).opDigest := by
    intro x
    by_cases hx : x = o
    · subst hx
      simp
    · simp [Function.update_of_ne hx]
  have hdigest : ∀ digest, ((c.peResourceUnref o).digests digest).text =
      (c.digests digest).text ∧ ((c.ops o).opDigest ≠ digest →
        ((c.peResourceUnref o).digests digest).live = (c.digests digest).live) := by
    intro digest
    simp only [Cape.peResourceUnref]
    split
    · exact ⟨digestFree_text _ _ _, fun hne => digestFree_live hne.symm _⟩
    · exact ⟨rfl, fun _ => rfl⟩
  obtain ⟨digests, heq⟩ := peResourceUnref_eq c o
  exact
    { history := by simp
      callOrder := by rw [heq]
      opCount := by rw [heq]
      digestCount := by rw [heq]
      opDigest := hops
      text := fun digest => (hdigest digest).1
      live := fun digest hnot _ => (hdigest digest).2 (hnot o) }

theorem unwinding : Unwinding fun c c' : Cape σ => Clears c c' [] where
  refl := refl
  trans := trans
  timerDel c _ := { refl c with }
  peResourceUnref := peResourceUnref
  clearMonitorOp c _ := { refl c with }

theorem dropEntry (c : Cape σ) (oh : OperationHistory) : Clears c (c.dropEntry oh) [oh] where
  history := by simp [Cape.dropEntry, digestFree]
  callOrder := rfl
  opCount := rfl
  digestCount := rfl
  opDigest _ := rfl
  text _ := digestFree_text _ _ _
  live _ _ hdropped := digestFree_live (hdropped oh (.head _)).symm _

theorem clearEntry (c : Cape σ) (oh : OperationHistory) : Clears c (c.clearEntry oh) [oh] :=
  (unwinding.stopWaitingMonitor c oh.resource).trans (dropEntry _ oh)

theorem clearHistory (c : Cape σ) (drop : ResourceId → Bool) :
    Clears c (c.clearHistory drop) (c.history.filter fun oh => drop oh.resource) := by
  unfold Cape.clearHistory
  generalize c.history = entries
  induction entries generalizing c with
  | nil => exact refl c
  | cons oh entries ih =>
      rw [List.foldl_cons]
      cases hdrop : drop oh.resource with
      | false => simpa [hdrop] using ih c
      | true => simpa [hdrop] using (clearEntry c oh).trans (ih (c.clearEntry oh))

theorem nodeOpHistoryClear (c : Cape σ) (a : CString) :
    Clears c (c.nodeOpHistoryClear a) (c.history.filter fun oh => oh.resource.assembly = a) :=
  { clearHistory c fun r => r.assembly = a with }

theorem opHistoryDelete (c : Cape σ) (o : Nat) :
    Clears c (c.opHistoryDelete o)
      (c.history.filter fun oh => some oh.resource = (c.ops o).resource) := by
  have hclear := clearHistory c fun r => some r = (c.ops o).resource
  have hcompleted : ∀ c : Cape σ, Clears c (c.peResourceCompleted o ocfOk) [] :=
    fun c => { refl c with }
  simpa [Cape.opHistoryDelete] using
    (hclear.trans (hcompleted _)).trans (peResourceUnref _ o)

theorem history_eq (hkeys : (c.history.map OperationHistory.rscId).Nodup)
    {drop : OperationHistory → Bool} (h : Clears c c' (c.history.filter drop)) :
    c'.history = c.history.filter fun oh => !drop oh := by
  rw [h.history]
  refine List.filter_congr fun x hx => ?_
  rw [Bool.eq_iff_iff, Bool.not_eq_true', decide_eq_true_eq]
  constructor
  · intro hkept
    refine Bool.eq_false_iff.mpr fun hdrop => ?_
    exact hkept x (List.mem_filter.mpr ⟨hx, hdrop⟩) rfl
  · intro hkept oh hoh heq
    obtain ⟨hmem, hdrop⟩ := List.mem_filter.mp hoh
    rw [List.inj_on_of_nodup_map hkeys hx hmem heq, hdrop] at hkept
    cases hkept

theorem digestsCreated {dropped : List OperationHistory} (h : Clears c c' dropped)
    (hcreated : c.DigestsCreated) : c'.DigestsCreated where
  created o ho := by
    rw [h.opDigest, h.digestCount]
    exact hcreated.created o (h.opCount ▸ ho)
  unused o ho := by
    rw [h.opDigest]
    exact hcreated.unused o (h.opCount ▸ ho)

end Clears

/-! ## Saving -/

inductive SavesDigest (c c' : Cape σ) (op : PeOperation) (digest : Nat) : Prop where
  | copied (find : c.findEntry (opHistoryKey op) = none) (opDigest : digest = c.digestCount)
      (digestCount : c'.digestCount = c.digestCount + 1)
      (digests : c'.digests = Function.update c.digests c.digestCount
        ⟨(c.digests op.opDigest).text, true⟩)
  | kept (old : OperationHistory) (find : c.findEntry (opHistoryKey op) = some old)
      (same : (c.digests old.opDigest).text = (c.digests op.opDigest).text)
      (opDigest : digest = old.opDigest) (digestCount : c'.digestCount = c.digestCount)
      (digests : c'.digests = c.digests)
  | shared (old : OperationHistory) (find : c.findEntry (opHistoryKey op) = some old)
      (differs : (c.digests old.opDigest).text ≠ (c.digests op.opDigest).text)
      (opDigest : digest = op.opDigest) (digestCount : c'.digestCount = c.digestCount)
      (digests : c'.digests = (c.digestFree old.opDigest).digests)

structure FindsEntry (c c' : Cape σ) (r : ResourceId) (op : PeOperation)
    (oh : OperationHistory) : Prop where
  digest : SavesDigest c c' op oh.opDigest
  history : c'.history = c.history
  callOrder : c'.callOrder = c.callOrder
  rscId : oh.rscId = opHistoryKey op
  resource : oh.resource = ((c.findEntry (opHistoryKey op)).map (·.resource)).getD r
  rc : oh.rc = ((c.findEntry (opHistoryKey op)).map (·.rc)).getD ocfPending
  lastRcChange : oh.lastRcChange =
    ((c.findEntry (opHistoryKey op)).map (·.lastRcChange)).getD 0

structure Saves (c c' : Cape σ) (now : Nat) (r : ResourceId) (o : Nat) (ec : Int)
    (oh : OperationHistory) : Prop where
  history : c'.history = historyPut c.history oh
  callOrder : c'.callOrder = c.callOrder + 1
  opCount : c'.opCount = c.opCount
  ops : c'.ops = c.ops
  digest : SavesDigest c c' (c.ops o) oh.opDigest
  rscId : oh.rscId = opHistoryKey (c.ops o)
  resource : oh.resource = ((c.findEntry (opHistoryKey (c.ops o))).map (·.resource)).getD r
  rc : oh.rc = ec
  lastRcChange : oh.lastRcChange =
    if ((c.findEntry (opHistoryKey (c.ops o))).map (·.rc)).getD ocfPending = ec then
      ((c.findEntry (opHistoryKey (c.ops o))).map (·.lastRcChange)).getD 0
    else now / usInSec
  lastRun : oh.lastRun = now / usInSec
  callId : oh.callId = c.callOrder
  graphId : oh.graphId = (c.ops o).graphId
  actionId : oh.actionId = (c.ops o).actionId

theorem rscId_of_findEntry {key : CString} {oh : OperationHistory} (h : c.findEntry key = some oh) :
    oh.rscId = key := by
  simpa using List.find?_some h

theorem mem_of_findEntry {key : CString} {oh : OperationHistory} (h : c.findEntry key = some oh) :
    oh ∈ c.history :=
  List.mem_of_find?_eq_some h

theorem opHistoryEntry_finds (c : Cape σ) (r : ResourceId) (op : PeOperation) :
    FindsEntry c (c.opHistoryEntry r op).1 r op (c.opHistoryEntry r op).2 := by
  unfold opHistoryEntry
  split
  case h_1 hfind =>
    have hnone : c.findEntry (opHistoryKey op) = none := hfind
    refine ⟨.copied hnone rfl rfl rfl, rfl, rfl, rfl, ?_, ?_, ?_⟩ <;> rw [hnone] <;> rfl
  case h_2 old hfind =>
    have hsome : c.findEntry (opHistoryKey op) = some old := hfind
    have hkey := rscId_of_findEntry hsome
    split
    case isTrue hdiffers =>
      refine ⟨.shared old hsome hdiffers rfl rfl rfl, rfl, rfl, hkey, ?_, ?_, ?_⟩ <;>
        rw [hsome] <;> rfl
    case isFalse hsame =>
      refine ⟨.kept old hsome (not_not.mp hsame) rfl rfl rfl, rfl, rfl, hkey, ?_, ?_, ?_⟩ <;>
        rw [hsome] <;> rfl

theorem SavesDigest.congr {op : PeOperation} {digest : Nat} (h : SavesDigest c c' op digest)
    (hcount : c''.digestCount = c'.digestCount) (hdigests : c''.digests = c'.digests) :
    SavesDigest c c'' op digest := by
  cases h with
  | copied find opDigest digestCount digests =>
      exact .copied find opDigest (hcount.trans digestCount) (hdigests.trans digests)
  | kept old find same opDigest digestCount digests =>
      exact .kept old find same opDigest (hcount.trans digestCount) (hdigests.trans digests)
  | shared old find differs opDigest digestCount digests =>
      exact .shared old find differs opDigest (hcount.trans digestCount)
        (hdigests.trans digests)

namespace SavesDigest

variable {op : PeOperation} {digest : Nat}

theorem count_le (h : SavesDigest c c' op digest) : c.digestCount ≤ c'.digestCount := by
  cases h with
  | copied _ _ digestCount _ => omega
  | kept _ _ _ _ digestCount _ => omega
  | shared _ _ _ _ digestCount _ => omega

theorem text_of_lt (h : SavesDigest c c' op digest) {x : Nat} (hx : x < c.digestCount) :
    (c'.digests x).text = (c.digests x).text := by
  cases h with
  | copied _ _ _ digests => rw [digests, Function.update_of_ne (Nat.ne_of_lt hx)]
  | kept _ _ _ _ _ digests => rw [digests]
  | shared old _ _ _ _ digests => rw [digests, digestFree_text]

theorem text_eq (h : SavesDigest c c' op digest) :
    (c'.digests digest).text = (c.digests op.opDigest).text := by
  cases h with
  | copied _ opDigest _ digests => rw [opDigest, digests, Function.update_self]
  | kept _ _ same opDigest _ digests => rw [opDigest, digests, same]
  | shared _ _ _ opDigest _ digests => rw [opDigest, digests, digestFree_text]

theorem lt (h : SavesDigest c c' op digest) (hop : op.opDigest < c.digestCount)
    (hentries : ∀ oh ∈ c.history, oh.opDigest < c.digestCount) : digest < c'.digestCount := by
  cases h with
  | copied _ opDigest digestCount _ => omega
  | kept old find _ opDigest digestCount _ =>
      have hold := hentries old (mem_of_findEntry find)
      omega
  | shared _ _ _ opDigest digestCount _ => omega

end SavesDigest

theorem exists_saves (c : Cape σ) (now : Nat) (r : ResourceId) (o : Nat) (ec : Int) :
    ∃ oh, Saves c (c.opHistorySave now r o ec) now r o ec oh := by
  have hfinds := opHistoryEntry_finds c r (c.ops o)
  have hops := Bookkeeping.opHistoryEntry c r (c.ops o)
  rw [opHistorySave]
  generalize c.opHistoryEntry r (c.ops o) = found at hfinds hops
  obtain ⟨mid, oh⟩ := found
  refine ⟨_, congrArg₂ historyPut hfinds.history rfl, congrArg (· + 1) hfinds.callOrder,
    hops.opCount, hops.ops, ?_, ?_, ?_, ?_, ?_, rfl, hfinds.callOrder, rfl, rfl⟩
  · simp only [apply_ite OperationHistory.opDigest, ite_self]
    exact hfinds.digest.congr rfl rfl
  · simp only [apply_ite OperationHistory.rscId, ite_self]
    exact hfinds.rscId
  · simp only [apply_ite OperationHistory.resource, ite_self]
    exact hfinds.resource
  · simp only [apply_ite OperationHistory.rc]
    split
    · rfl
    case isFalse hrc => exact not_not.mp hrc
  · rw [← hfinds.rc, ← hfinds.lastRcChange]
    simp only [apply_ite OperationHistory.lastRcChange, ite_not]

/-! ## Steps -/

/-- The operations that an event names exist, and another step leaves the history alone. -/
def Possible (c : Cape σ) : HistoryEvent σ → Prop
  | .save _ _ o _ => o < c.opCount
  | .other next => Elsewhere c next
  | _ => True

/-- One entry for a key; the digests of the entries and operations have been created. -/
structure Allocated (c : Cape σ) : Prop where
  keys : (c.history.map OperationHistory.rscId).Nodup
  ops : c.DigestsCreated
  entries : ∀ oh ∈ c.history, oh.opDigest < c.digestCount

structure Fresh (c : Cape σ) : Prop where
  history : c.history = []
  callOrder : c.callOrder = 0
  ops : c.DigestsCreated

theorem Fresh.allocated (h : c.Fresh) : c.Allocated where
  keys := by simp [h.history]
  ops := h.ops
  entries := by simp [h.history]

namespace Allocated

theorem findEntry_of_mem (h : c.Allocated) {oh : OperationHistory} (hoh : oh ∈ c.history) :
    c.findEntry oh.rscId = some oh := by
  cases hfind : c.findEntry oh.rscId with
  | none => exact absurd (decide_eq_true rfl) (List.find?_eq_none.mp hfind oh hoh)
  | some x =>
      rw [List.inj_on_of_nodup_map h.keys (mem_of_findEntry hfind) hoh (rscId_of_findEntry hfind)]

theorem elsewhere (h : c.Allocated) (he : Elsewhere c c') : c'.Allocated where
  keys := by
    rw [he.history]
    exact h.keys
  ops := he.digestsCreated h.ops
  entries oh hoh := (h.entries oh (he.history ▸ hoh)).trans_le he.digestCount

theorem clears (h : c.Allocated) {dropped : List OperationHistory} (hc : Clears c c' dropped) :
    c'.Allocated where
  keys := by
    rw [hc.history]
    exact h.keys.sublist (List.filter_sublist.map _)
  ops := hc.digestsCreated h.ops
  entries oh hoh := by
    rw [hc.history] at hoh
    rw [hc.digestCount]
    exact h.entries oh (List.mem_of_mem_filter hoh)

theorem saves (h : c.Allocated) {now o : Nat} {r : ResourceId} {ec : Int}
    {oh : OperationHistory} (hs : Saves c c' now r o ec oh) (ho : o < c.opCount) :
    c'.Allocated where
  keys := by
    rw [hs.history]
    exact nodup_keys_mapPut h.keys
  ops :=
    { created := fun x hx => by
        rw [hs.ops]
        exact (h.ops.created x (hs.opCount ▸ hx)).trans_le hs.digest.count_le
      unused := fun x hx => by
        rw [hs.ops]
        exact h.ops.unused x (hs.opCount ▸ hx) }
  entries x hx := by
    rw [hs.history] at hx
    rcases mem_mapPut hx with rfl | hold
    · exact hs.digest.lt (h.ops.created o ho) h.entries
    · exact (h.entries x hold).trans_le hs.digest.count_le

end Allocated

end Cape

theorem World.load_fresh {σ : Type} [Stopwatch σ] (d : Deployable) (errno : ResourceId → Int)
    (answers : CString → Env) : (World.load (σ := σ) d errno answers).cape.Fresh := by
  obtain ⟨cloud, hcape⟩ := World.load_cape (σ := σ) d errno answers
  rw [hcape]
  exact ⟨rfl, rfl, fun _ ho => absurd ho (Nat.not_lt_zero _), fun _ _ => rfl⟩

def Cape.barCape : Cape Ring :=
  (World.load World.barDeployable (fun _ => 0) fun _ => World.workingEnv).cape

theorem Cape.barCape_fresh : Cape.barCape.Fresh := World.load_fresh _ _ _

end PacemakerCloud
