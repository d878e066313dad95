import PacemakerCloud.Daemon.Lookup

/-!
# The status document

`process` reports to the policy engine what the daemon knows of each node: one
`node_state` for every assembly, with an `lrm_resource` for every entry of the
operation history whose resource name contains the name of the assembly.  That is
the assembly of the resource, and any other whose name occurs there as well.
-/

namespace PacemakerCloud

open Foundation

/-! ## The document -/

structure LrmRscOp where
  id : CString
  operation : CString
  callId : CString
  rcCode : CString
  interval : CString
  lastRun : CString
  lastRcChange : CString
  transitionKey : CString
  transitionMagic : CString
  opDigest : CString
  crmDebugOrigin : CString
  crmFeatureSet : CString
  opStatus : CString
  execTime : CString
  queueTime : CString
  deriving DecidableEq, Repr

structure LrmResource where
  id : CString
  type : CString
  rclass : CString
  provider : Option CString
  op : LrmRscOp
  deriving DecidableEq, Repr

/-- A `node_state` element, with the children of its `lrm_resources`. -/
structure NodeState where
  id : CString
  uname : CString
  ha : CString
  expected : CString
  inCcm : CString
  crmd : CString
  join : CString
  resources : List LrmResource
  deriving DecidableEq, Repr

/-- `xml_new_int_prop` and `xml_new_time_prop`. -/
def xmlIntProp (value : Int) : CString :=
  snprintf 36 (printInt (toInt32 value))

def peCrmVersion : CString := "3.0.5".toList

def opHistoryInsert (crmdUuid : CString) (digests : Nat → Digest) (oh : OperationHistory) :
    LrmRscOp :=
  let key := snprintf 255 (printInt (toInt32 oh.actionId) ++ ':' ::
    printInt (toInt32 oh.graphId) ++ ':' :: printInt (toInt32 oh.targetOutcome) ++ ':' ::
    crmdUuid)
  { id := oh.rscId
    operation := oh.operation.text
    callId := xmlIntProp oh.callId
    rcCode := xmlIntProp oh.rc
    interval := xmlIntProp oh.interval
    lastRun := xmlIntProp oh.lastRun
    lastRcChange := xmlIntProp oh.lastRcChange
    transitionKey := key
    transitionMagic := snprintf 255 ("0:".toList ++ printInt (toInt32 oh.rc) ++ ':' :: key)
    opDigest := (digests oh.opDigest).text
    crmDebugOrigin := "op_history_insert".toList
    crmFeatureSet := peCrmVersion
    opStatus := "0".toList
    execTime := "0".toList
    queueTime := "0".toList }

def Deployable.info? (d : Deployable) (r : ResourceId) : Option ResourceInfo :=
  (d.assembly? r.assembly).bind (·.resource? r.name)

def insertResource (d : Deployable) (r : ResourceId) (op : LrmRscOp) : LrmResource :=
  match d.info? r with
  | some info =>
      { id := info.name
        type := info.type
        rclass := info.rclass
        provider := if info.rclass = "ocf".toList then info.rprovider else none
        op := op }
  | none =>
      -- no entry of the history has such a resource
      { id := r.name, type := [], rclass := [], provider := none, op := op }

namespace World

variable {σ : Type}

/-- The entries that `insert_status` does not skip. -/
def reported (w : World σ) (a : AssemblyNode) : List OperationHistory :=
  w.cape.history.filter fun oh => strstr oh.resource.name a.name

def lrmResource (d : Deployable) (w : World σ) (crmdUuid : CString)
    (oh : OperationHistory) : LrmResource :=
  insertResource d oh.resource (opHistoryInsert crmdUuid w.cape.digests oh)

def insertStatus (d : Deployable) (w : World σ) (crmdUuid : CString) (a : AssemblyNode) :
    NodeState where
  id := a.uuid
  uname := a.name
  ha := "active".toList
  expected := "member".toList
  inCcm := "true".toList
  crmd := "online".toList
  join :=
    if (w.assemblies a.name).recover.state = .running then "member".toList
    else "pending".toList
  resources := (w.reported a).map (w.lrmResource d crmdUuid)

/-- The `status` element that `process` builds, up to the order of its nodes. -/
def status (d : Deployable) (w : World σ) (crmdUuid : CString) : List NodeState :=
  d.assemblies.map (w.insertStatus d crmdUuid)

end World

/-! ## Reporting under the right node -/

def Deployable.WithinLimits (d : Deployable) : Prop :=
  ∀ a ∈ d.assemblies, a.name.length ≤ assemblyNameMax ∧
    ∀ s ∈ a.services, s.name.length ≤ resourceNameMax

instance (d : Deployable) : Decidable d.WithinLimits :=
  inferInstanceAs (Decidable (∀ a ∈ _, _ ∧ ∀ s ∈ _, _))

theorem Deployable.assembly?_eq_some {d : Deployable} {name : CString} {a : AssemblyNode}
    (h : d.assembly? name = some a) : a ∈ d.assemblies ∧ a.name = name :=
  ⟨List.mem_of_find?_eq_some h, by simpa using List.find?_some h⟩

theorem Deployable.Has.owner {d : Deployable} {r : ResourceId} (h : d.Has r)
    (hlimits : d.WithinLimits) :
    ∃ a ∈ d.assemblies, a.name = r.assembly ∧ strstr r.name a.name = true := by
  unfold Deployable.Has Deployable.resource? at h
  cases hassembly : d.assembly? r.assembly with
  | none => simp [hassembly] at h
  | some a =>
      obtain ⟨hmem, hname⟩ := Deployable.assembly?_eq_some hassembly
      simp only [hassembly, Option.isSome_map] at h
      obtain ⟨info, hinfo⟩ := Option.isSome_iff_exists.mp h
      have hkey : info.name = r.name := by simpa using List.find?_some hinfo
      refine ⟨a, hmem, hname, hkey ▸ ?_⟩
      exact strstr_of_mem_resourceMap (hlimits a hmem).1 (hlimits a hmem).2
        (List.mem_of_find?_eq_some hinfo)

namespace World

variable {σ : Type} {d : Deployable} {w : World σ}

def owned (w : World σ) (a : AssemblyNode) : List OperationHistory :=
  w.cape.history.filter fun oh => oh.resource.assembly = a.name

/--
Under each `node_state` stand the entries of that assembly's resources and no
others, and each entry stands under one of them.
-/
def ReportsOwned (d : Deployable) (w : World σ) (crmdUuid : CString) : Prop :=
  (∀ a ∈ d.assemblies,
      (w.insertStatus d crmdUuid a).resources = (w.owned a).map (w.lrmResource d crmdUuid)) ∧
    ∀ oh ∈ w.cape.history, d.assemblies.countP (fun a => oh ∈ w.reported a) = 1

/-- The name of a resource in the history contains no other assembly's name. -/
def NamesApart (d : Deployable) (w : World σ) : Prop :=
  ∀ oh ∈ w.cape.history, ∀ a ∈ d.assemblies,
    strstr oh.resource.name a.name = true → a.name = oh.resource.assembly

instance (d : Deployable) (w : World σ) : Decidable (NamesApart d w) :=
  inferInstanceAs (Decidable (∀ oh ∈ w.cape.history, ∀ a ∈ _, _))

theorem reported_eq_owned (h : NamesApart d w) (hlimits : d.WithinLimits)
    (hhistory : ∀ oh ∈ w.cape.history, d.Has oh.resource) {a : AssemblyNode}
    (ha : a ∈ d.assemblies) : w.reported a = w.owned a := by
  refine List.filter_congr fun oh hoh => ?_
  obtain ⟨b, hb, hname, hcontains⟩ := (hhistory oh hoh).owner hlimits
  rw [Bool.eq_iff_iff, decide_eq_true_iff]
  constructor
  · exact fun hstrstr => (h oh hoh a ha hstrstr).symm
  · exact fun howner => by rwa [← howner, ← hname]

theorem owned_length_lt (hlimits : d.WithinLimits)
    (hhistory : ∀ oh ∈ w.cape.history, d.Has oh.resource) {a : AssemblyNode}
    {oh : OperationHistory} (hoh : oh ∈ w.cape.history)
    (hstrstr : strstr oh.resource.name a.name = true)
    (hother : a.name ≠ oh.resource.assembly) :
    (w.owned a).length < (w.reported a).length := by
  have hsub : w.owned a = (w.reported a).filter fun oh => oh.resource.assembly = a.name := by
    simp only [owned, reported, List.filter_filter]
    refine List.filter_congr fun x hx => ?_
    obtain ⟨b, -, hname, hcontains⟩ := (hhistory x hx).owner hlimits
    by_cases howner : x.resource.assembly = a.name
    · rw [hname, howner] at hcontains
      simp [howner, hcontains]
    · simp [howner]
  rw [hsub, List.length_filter_lt_length_iff_exists]
  exact ⟨oh, List.mem_filter.mpr ⟨hoh, hstrstr⟩, by simpa using Ne.symm hother⟩

theorem reportsOwned_iff_of_history (hlimits : d.WithinLimits)
    (hhistory : ∀ oh ∈ w.cape.history, d.Has oh.resource) (crmdUuid : CString) :
    w.ReportsOwned d crmdUuid ↔ NamesApart d w := by
  constructor
  · rintro ⟨hexact, -⟩ oh hoh a ha hstrstr
    by_contra hother
    have hlength := congrArg List.length (hexact a ha)
    have hlt := owned_length_lt hlimits hhistory hoh hstrstr hother
    simp only [insertStatus, List.length_map] at hlength
    omega
  · intro hapart
    refine ⟨fun a ha => ?_, fun oh hoh => ?_⟩
    · simp only [insertStatus, reported_eq_owned hapart hlimits hhistory ha]
    · obtain ⟨b, hb, hname, -⟩ := (hhistory oh hoh).owner hlimits
      have hcount : d.assemblies.countP (fun a => oh ∈ w.reported a) =
          (d.assemblies.map AssemblyNode.name).count b.name := by
        rw [List.count, List.countP_map]
        refine List.countP_congr fun a ha => ?_
        rw [reported_eq_owned hapart hlimits hhistory ha]
        simpa [owned, hoh, ← hname] using eq_comm
      rw [hcount]
      exact List.count_eq_one_of_mem d.names_nodup (List.mem_map_of_mem hb)

end World

/-! ## Histories of configured resources -/

namespace Cape

variable {σ : Type} {d : Deployable} {c c' c'' : Cape σ} {env : Env} {o : Nat} {ec : Int}

@[simp] theorem confirmFirst_history (c : Cape σ) (o : Nat) (ec : Int) :
    (c.confirmFirst o ec).history = c.history := by
  unfold confirmFirst
  split <;> rfl

@[simp] theorem stopMonitor_history (c : Cape σ) (r : ResourceId) :
    (c.stopMonitor r).history = c.history := by
  have hrule : Unwinding fun c c' : Cape σ => c'.history = c.history :=
    ⟨fun _ => rfl, fun h h' => h'.trans h, fun _ _ => rfl, peResourceUnref_history,
      fun _ _ => rfl⟩
  exact hrule.stopMonitor c r

theorem clearHistory_history (c : Cape σ) (drop : ResourceId → Bool) :
    (c.clearHistory drop).history ⊆ c.history := by
  have hrule : Unwinding fun c c' : Cape σ => c'.history ⊆ c.history :=
    ⟨fun _ => List.Subset.refl _, fun h h' => List.Subset.trans h' h,
      fun _ _ => List.Subset.refl _, fun c o => by simp, fun _ _ => List.Subset.refl _⟩
  exact hrule.clearHistory (fun c oh => List.filter_subset_self _) c drop

theorem opHistorySave_history (c : Cape σ) (now : Nat) (r : ResourceId) (o : Nat) (ec : Int) :
    ∃ oh, (c.opHistorySave now r o ec).history = historyPut c.history oh ∧
      (oh.resource = r ∨ ∃ x ∈ c.history, x.resource = oh.resource) := by
  have hentry : (c.opHistoryEntry r (c.ops o)).1.history = c.history ∧
      ((c.opHistoryEntry r (c.ops o)).2.resource = r ∨
        ∃ x ∈ c.history, x.resource = (c.opHistoryEntry r (c.ops o)).2.resource) := by
    unfold opHistoryEntry
    split
    case h_1 => exact ⟨rfl, Or.inl rfl⟩
    case h_2 oh hfind =>
      have hmem := List.mem_of_find?_eq_some hfind
      split <;> exact ⟨rfl, Or.inr ⟨oh, hmem, rfl⟩⟩
  simp only [opHistorySave]
  generalize c.opHistoryEntry r (c.ops o) = entry at hentry
  obtain ⟨hhistory, hresource⟩ := hentry
  refine ⟨_, by rw [hhistory], ?_⟩
  split <;> exact hresource

theorem resourceStateSet_history [Stopwatch σ] {r : Option ResourceId} {op : PeOperation}
    (h : c.resourceStateSet env r op ec = .ok c') : c'.history = c.history := by
  unfold resourceStateSet at h
  split at h
  · rw [← Except.ok.inj h]
  · obtain ⟨r, -, heq⟩ := bind_eq_ok.mp h
    rw [← Except.ok.inj heq]
    refine foldl_rel (R := fun c c' : Cape σ => c'.history = c.history) (fun _ => rfl)
      (fun h h' => h'.trans h) (fun c call => ?_) _ (c.modifyResource r _)
    cases call <;> rfl

def Records (d : Deployable) (c c' : Cape σ) : Prop :=
  ∀ oh ∈ c'.history, (∃ x ∈ c.history, x.resource = oh.resource) ∨ d.Has oh.resource

namespace Records

theorem of_subset (h : c'.history ⊆ c.history) : Records d c c' :=
  fun oh hoh => Or.inl ⟨oh, h hoh, rfl⟩

theorem of_eq (h : c'.history = c.history) : Records d c c' :=
  of_subset (by rw [h]; exact List.Subset.refl _)

theorem trans (h : Records d c c') (h' : Records d c' c'') : Records d c c'' := by
  intro oh hoh
  rcases h' oh hoh with ⟨x, hx, heq⟩ | hhas
  · rw [← heq]
    exact h x hx
  · exact Or.inr hhas

theorem opHistorySave {now : Nat} {r : ResourceId} (hr : d.Has r) :
    Records d c (c.opHistorySave now r o ec) := by
  obtain ⟨oh, hhistory, hresource⟩ := opHistorySave_history c now r o ec
  intro x hx
  rw [hhistory] at hx
  rcases mem_mapPut hx with rfl | hold
  · rcases hresource with heq | hknown
    · exact Or.inr (heq ▸ hr)
    · exact Or.inl hknown
  · exact Or.inl ⟨x, hold, rfl⟩

theorem opHistoryRecord {r : Option ResourceId} (hr : ∀ x ∈ r, d.Has x)
    (h : c.opHistoryRecord env r o ec = .ok c') : Records d c c' := by
  unfold Cape.opHistoryRecord at h
  split at h
  · obtain ⟨x, hfound, heq⟩ := bind_eq_ok.mp h
    cases r with
    | none => cases hfound
    | some r =>
        cases hfound
        rw [← Except.ok.inj heq]
        exact opHistorySave (hr _ rfl)
  · rw [← Except.ok.inj h]
    exact of_eq rfl

section

variable [Stopwatch σ]

theorem completed (hok : c.resourceActionCompleted d env o ec = .ok c') :
    Records d c c' := by
  simp only [resourceActionCompleted] at hok
  split at hok
  · cases hok
  obtain ⟨c₁, hrecord, hok⟩ := bind_eq_ok.mp hok
  obtain ⟨c₂, hset, hrelease⟩ := bind_eq_ok.mp hok
  have hadded : Records d (c.timesExecutedAdd o) c₁ :=
    opHistoryRecord (fun r hr => Deployable.has_of_resource? hr) hrecord
  have hkept : c₂.history = c₁.history :=
    (resourceStateSet_history hset).trans (confirmFirst_history c₁ o ec)
  refine hadded.trans (of_eq ?_)
  rw [← hkept]
  rcases resourceActionRelease_ok hrelease with ⟨-, hc⟩ | ⟨r, -, -, hc⟩ <;> rw [hc]
  · rw [peResourceUnref_history]
    split <;> rfl
  · simp only [monitorTimerAdd]
    split <;> rfl

theorem receive {a : CString} {x : Output} (h : c.receive d a env x = .ok c') :
    Records d c c' := by
  cases x with
  | stateChanging | address =>
      rw [← Except.ok.inj h]
      exact of_eq rfl
  | restarted =>
      rw [← Except.ok.inj h]
      exact of_subset (clearHistory_history c _)
  | actionCompleted o sshRc =>
      obtain ⟨mid, hmid, hc⟩ := bind_eq_ok.mp h
      rw [← Except.ok.inj hc]
      exact (completed hmid).trans (of_eq (peResourceUnref_history mid o))

theorem foldlM_receive {a : CString} {outputs : List Output}
    (h : outputs.foldlM (Cape.receive d a env) c = .ok c') : Records d c c' := by
  induction outputs generalizing c with
  | nil =>
      rw [← Except.ok.inj h]
      exact of_eq rfl
  | cons x outputs ih =>
      rw [List.foldlM_cons] at h
      obtain ⟨mid, hx, hrest⟩ := bind_eq_ok.mp h
      exact (receive hx).trans (ih hrest)

theorem executeCb {state : RecoverState} {queued : Bool}
    (h : c.Executed d env o state c' queued) : Records d c c' := by
  have hsettle : ∀ (c : Cape σ) rc, (c.settle o rc).history = c.history := fun c rc =>
    peResourceUnref_history _ o
  cases h with
  | offline hstate hok =>
      split
      · exact (completed hok).trans (of_eq rfl)
      · exact completed hok
  | foreign => exact of_eq (hsettle _ _)
  | monitored => exact of_eq (hsettle _ _)
  | monitor | probe | start => exact of_eq rfl
  | @stop r => exact of_eq (stopMonitor_history _ r)
  | delete =>
      refine of_subset fun oh hoh => ?_
      rw [opHistoryDelete, peResourceUnref_history] at hoh
      exact clearHistory_history (c.setResource o _) _ hoh

end

end Records

end Cape

namespace World

variable {σ : Type} [Stopwatch σ] {d : Deployable} {w w' : World σ} {e : Event}

theorem Transition.records (h : Transition d w e w') : w.cape.Records d w'.cape := by
  cases h with
  | job hgraph hjob hreact hcalls => exact .foldlM_receive hcalls
  | timer hgraph htimer hreact hcalls => exact .foldlM_receive hcalls
  | @monitorOffline handle o env c hgraph htimer hstate hok =>
      have hdeleted : w.cape.Records d (w.cape.timerDel handle) := .of_eq rfl
      exact hdeleted.trans (.completed hok)
  | monitorRequest => exact .of_eq rfl
  | processJob =>
      refine .of_eq ?_
      simp only [modifyCape, World.processJob]
      split <;> rfl
  | processNextJob =>
      refine .of_eq ?_
      simp only [modifyCape, World.processNextJob]
      split <;> rfl
  | confirmed => exact .of_eq rfl
  | @fire graph spec env c queued command hgraph hexec =>
      have hcreate : w.cape.Records d (execRscAction w.cape graph spec) := .of_eq rfl
      exact hcreate.trans (.executeCb hexec)
  | @returned graph status =>
      refine .of_eq ?_
      cases status <;> rfl

theorem reaches_history {errno : ResourceId → Int} {answers : CString → Env}
    {events : List Event} (h : Reaches d errno answers events w) :
    ∀ oh ∈ w.cape.history, d.Has oh.resource := by
  obtain ⟨-, hhistory⟩ := run_invariant_of_step
    (I := fun w : World σ => (∀ a, (w.assemblies a).Sound) ∧
      ∀ oh ∈ w.cape.history, d.Has oh.resource)
    (fun ⟨hsound, hhistory⟩ hstep => ⟨step_sound hsound hstep, fun oh hoh =>
      ((step_transition hsound hstep).records oh hoh).elim
        (fun ⟨x, hx, heq⟩ => heq ▸ hhistory x hx) id⟩)
    ⟨load_sound d errno answers, by
      obtain ⟨cloud, hcape⟩ := load_cape (σ := σ) d errno answers
      simp [hcape, empty]⟩ h
  exact hhistory

/--
The status document of a history of configured resources is right exactly when no
resource in it has a name that contains the name of another assembly.  So it is in every
state that is reached.
-/
theorem reportsOwned_iff_namesApart (hlimits : d.WithinLimits) (crmdUuid : CString) :
    (∀ w : World σ, (∀ oh ∈ w.cape.history, d.Has oh.resource) →
        (w.ReportsOwned d crmdUuid ↔ NamesApart d w)) ∧
      ∀ (errno : ResourceId → Int) (answers : CString → Env) (events : List Event)
        (w : World σ), Reaches d errno answers events w →
          (w.ReportsOwned d crmdUuid ↔ NamesApart d w) :=
  ⟨fun _ hhistory => reportsOwned_iff_of_history hlimits hhistory crmdUuid,
    fun _ _ _ _ h => reportsOwned_iff_of_history hlimits (reaches_history h) crmdUuid⟩

theorem reportsOwned_iff_namesApart_monitoring :
    ∃ w, BarReaches monitoring w ∧ w.cape.history ≠ [] ∧
      ∀ crmdUuid, w.ReportsOwned barDeployable crmdUuid := by
  obtain ⟨w, hreach, hhistory, hapart⟩ :
      ∃ w, BarReaches monitoring w ∧ w.cape.history ≠ [] ∧ NamesApart barDeployable w :=
    exists_reaches (by decide +kernel)
  exact ⟨w, hreach, hhistory, fun crmdUuid =>
    ((reportsOwned_iff_namesApart (by decide +kernel) crmdUuid).2 _ _ _ w hreach).mpr hapart⟩

/--
A service of `bar` is probed where another assembly is called `ar`: its entry, the
only one, is reported for both of them.
-/
theorem probe_reported_twice :
    (withNode "ar".toList (by decide)).WithinLimits ∧
      ∃ w : World Ring, Reaches (withNode "ar".toList (by decide)) (fun _ => 0)
          (fun _ => workingEnv) (probing ++ [.job bar (.assemblySshExec 0) workingEnv,
            .job bar (.assemblySshExec 1) workingEnv]) w ∧
        w.cape.history.map (·.resource) = [⟨bar, "rsc_bar_angus".toList⟩] ∧
        (w.status (withNode "ar".toList (by decide)) []).map
            (fun state => (state.uname, state.resources.map (·.id))) =
          [(bar, ["rsc_bar_angus".toList]), ("ar".toList, ["rsc_bar_angus".toList])] :=
  ⟨by decide +kernel, exists_reaches (by decide +kernel)⟩

end World

end PacemakerCloud
