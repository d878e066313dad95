import PacemakerCloud.Config.References
import PacemakerCloud.Daemon.Addresses
import PacemakerCloud.Daemon.AdminEvents
import PacemakerCloud.Daemon.Processing
import PacemakerCloud.Daemon.Status

/-!
# The document of the policy engine

The daemon keeps one document.  Its configuration is what the stylesheet made of the deployable;
a node that comes up sets the parameters that refer to it, through pointers that were taken when
the document was loaded.  `process` replaces the `status` element and hands the document over.
The document is followed here along the runs of the daemon.
-/

namespace PacemakerCloud

open Foundation

/-! ## The `status` element -/

def LrmRscOp.toXml (op : LrmRscOp) : Xml :=
  .elem "lrm_rsc_op"
    [("id", op.id), ("operation", op.operation), ("call-id", op.callId),
      ("rc-code", op.rcCode), ("interval", op.interval), ("last-run", op.lastRun),
      ("last-rc-change", op.lastRcChange), ("transition-key", op.transitionKey),
      ("transition-magic", op.transitionMagic), ("op-digest", op.opDigest),
      ("crm-debug-origin", op.crmDebugOrigin), ("crm_feature_set", op.crmFeatureSet),
      ("op-status", op.opStatus), ("exec-time", op.execTime), ("queue-time", op.queueTime)] []

/-- An attribute that is added without a value is empty. -/
def LrmResource.toXml (r : LrmResource) : Xml :=
  .elem "lrm_resource"
    ([("id", r.id), ("type", r.type), ("class", r.rclass)] ++
      if r.rclass = "ocf".toList then [("provider", r.provider.getD [])] else [])
    [r.op.toXml]

def NodeState.toXml (n : NodeState) : Xml :=
  .elem "node_state"
    [("id", n.id), ("uname", n.uname), ("ha", n.ha), ("expected", n.expected),
      ("in_ccm", n.inCcm), ("crmd", n.crmd), ("join", n.join)]
    [.elem "lrm" [] [.elem "lrm_resources" [] (n.resources.map LrmResource.toXml)]]

def statusXml (states : List NodeState) : Xml :=
  .elem "status" [] (states.map NodeState.toXml)

/-- `process` up to the call of `pe_process_state`: the first `status` is replaced. -/
def processDocument (pe : Xml) (states : List NodeState) : Xml :=
  match pe with
  | .element tag attrs children =>
      .element tag attrs (children.eraseP (·.named "status") ++ [statusXml states])
  | .text content => .text content
  | .comment content => .comment content

/-! ## Changes of the document -/

inductive DocumentEdit where
  /-- `node_state_change_event`. -/
  | node (changed : NodeChange)
  /-- `process`. -/
  | process (states : List NodeState)

namespace DocumentEdit

def apply (map : List AssemblyRefs) (pe : Xml) : DocumentEdit → Option Xml
  | .node changed => nodeStateChangeEvent map pe changed
  | .process states => some (processDocument pe states)

def node? : DocumentEdit → Option NodeChange
  | .node changed => some changed
  | .process _ => none

def process? : DocumentEdit → Option (List NodeState)
  | .node _ => none
  | .process states => some states

end DocumentEdit

def nodeChanges (edits : List DocumentEdit) : List NodeChange := edits.filterMap (·.node?)

def lastStatus (edits : List DocumentEdit) : Option (List NodeState) :=
  (edits.filterMap (·.process?)).getLast?

def Foundation.Xml.append (x : Xml) (more : List Xml) : Xml :=
  match x with
  | .element tag attrs children => .element tag attrs (children ++ more)
  | .text content => .text content
  | .comment content => .comment content

def Cib.withStatus (cib : Cib) (states : Option (List NodeState)) : Xml :=
  cib.toXml.append (states.map statusXml).toList

/-! ## A status does not move the nodes of the configuration -/

theorem Foundation.Xml.setProp_append {name : String} {value : CString} {i : Nat}
    {path : List Nat} {x : Xml} (hi : i < x.children.length) (more : List Xml) :
    Xml.setProp name value (i :: path) (x.append more) =
      (Xml.setProp name value (i :: path) x).append more := by
  cases x with
  | element tag attrs children =>
      have hmodify := modify_append_left (l := children) hi (Xml.setProp name value path) more
      simp only [Xml.append, Xml.setProp, hmodify]
  | text | comment => rfl

theorem Foundation.Xml.length_setProp (name : String) (value : CString) (path : List Nat)
    (x : Xml) : (Xml.setProp name value path x).children.length = x.children.length := by
  cases path <;> cases x <;> simp [Xml.setProp, Xml.children]

theorem refParamUpdate_append {changed : NodeChange} {p : ReferenceParam} {i : Nat}
    {path : List Nat} {pe : Xml} (hpath : p.xmlnode = i :: path) (hi : i < pe.children.length)
    (more : List Xml) :
    refParamUpdate changed (pe.append more) p =
      (refParamUpdate changed pe p).map (·.append more) := by
  unfold refParamUpdate
  cases p.assembly with
  | none => rfl
  | some assembly =>
      simp only [Option.bind_eq_bind, Option.bind_some]
      split
      · cases p.parameter with
        | none => rfl
        | some parameter =>
            rw [hpath]
            exact congrArg some (Xml.setProp_append hi more)
      · rfl

theorem refParamUpdate_length {changed : NodeChange} {p : ReferenceParam} {pe pe' : Xml}
    (h : refParamUpdate changed pe p = some pe') :
    pe'.children.length = pe.children.length := by
  unfold refParamUpdate at h
  cases hassembly : p.assembly with
  | none => simp [hassembly] at h
  | some assembly =>
      simp only [hassembly, Option.bind_eq_bind, Option.bind_some] at h
      split at h
      · cases hparameter : p.parameter with
        | none => simp [hparameter] at h
        | some parameter =>
            simp only [hparameter, Option.bind_some, Option.pure_def, Option.some.injEq] at h
            rw [← h, Xml.length_setProp]
      · cases h
        rfl

theorem foldlM_refParamUpdate_append {changed : NodeChange} {ps : List ReferenceParam}
    {pe : Xml} (hpaths : ∀ p ∈ ps, ∃ path, p.xmlnode = 0 :: path)
    (hpe : 0 < pe.children.length) (more : List Xml) :
    ps.foldlM (refParamUpdate changed) (pe.append more) =
      (ps.foldlM (refParamUpdate changed) pe).map (·.append more) := by
  induction ps generalizing pe with
  | nil => rfl
  | cons p ps ih =>
      rw [List.forall_mem_cons] at hpaths
      obtain ⟨path, hpath⟩ := hpaths.1
      rw [List.foldlM_cons, List.foldlM_cons, refParamUpdate_append hpath hpe]
      cases hupdate : refParamUpdate changed pe p with
      | none => rfl
      | some pe' => exact ih hpaths.2 (by rw [refParamUpdate_length hupdate]; exact hpe)

theorem findPeParameter_first {cib : Cib} {rscId : CString} {parmName : Option CString}
    {path : List Nat}
    (h : findPeParameter cib.toXml rscId parmName = some path) :
    ∃ rest, path = 0 :: rest := by
  have hconfig : ∃ config, getXmlChildBy cib.toXml "configuration" none = some (0, config) :=
    ⟨_, rfl⟩
  obtain ⟨config, hconfig⟩ := hconfig
  simp only [findPeParameter, hconfig, Option.bind_eq_bind, Option.bind_some,
    Option.bind_eq_some_iff, Option.pure_def, Option.some.injEq] at h
  obtain ⟨_, -, _, -, _, -, _, -, rfl⟩ := h
  exact ⟨_, rfl⟩

theorem processDocument_withStatus (cib : Cib) (states : Option (List NodeState))
    (next : List NodeState) :
    processDocument (cib.withStatus states) next = cib.withStatus (some next) := by
  cases states with
  | none => rfl
  | some states => rfl

namespace Referenceable

variable {deployable : Xml} (h : Referenceable deployable) {map : List AssemblyRefs}
  (hload : loadRefs deployable = some map)
include h hload

theorem nodeStateChangeEvent_append {pe : Xml} (hpe : 0 < pe.children.length)
    (changed : NodeChange) (more : List Xml) :
    nodeStateChangeEvent map (pe.append more) changed =
      (nodeStateChangeEvent map pe changed).map (·.append more) := by
  unfold nodeStateChangeEvent
  split
  · rw [h.nodeUpdateAddrInfo_eq hload, h.nodeUpdateAddrInfo_eq hload]
    refine foldlM_refParamUpdate_append (fun p hp => ?_) hpe more
    obtain ⟨t, ht, rfl⟩ := List.mem_map.mp hp
    obtain ⟨x, hx, hholder, hparameter, hreference⟩ := mem_targets.mp ht
    have hname := h.name_of_reference hx (mem_serviceReferences.mpr ⟨hparameter, hreference⟩)
    obtain ⟨path, hfind, -⟩ := h.findPeParameter_eq hx hholder hparameter
    simp only [refParam, hname, hfind, Option.getD_some]
    exact findPeParameter_first hfind
  · rfl

theorem nodeStateChangeEvent_withStatus (changes : List NodeChange) (changed : NodeChange)
    (states : Option (List NodeState)) :
    nodeStateChangeEvent map
        ((cf2peWith (currentValue changes) deployable).withStatus states) changed =
      some ((cf2peWith (currentValue (changes ++ [changed])) deployable).withStatus states) := by
  have hrun := fun changes => (h.run_assign hload changes).trans
    (congrArg (fun cib => some cib.toXml) (h.cf2pe_assign changes))
  have hnext := hrun (changes ++ [changed])
  rw [List.foldlM_append, hrun changes] at hnext
  have hone : nodeStateChangeEvent map (cf2peWith (currentValue changes) deployable).toXml changed
      = some (cf2peWith (currentValue (changes ++ [changed])) deployable).toXml := by
    simpa using hnext
  have hchild : 0 < (cf2peWith (currentValue changes) deployable).toXml.children.length :=
    Nat.one_pos
  rw [Cib.withStatus, h.nodeStateChangeEvent_append hload hchild, hone]
  rfl

theorem foldlM_edits (edits : List DocumentEdit) :
    edits.foldlM (DocumentEdit.apply map) (cf2pe deployable).toXml =
      some ((cf2peWith (currentValue (nodeChanges edits)) deployable).withStatus
        (lastStatus edits)) := by
  induction edits using List.reverseRecOn with
  | nil =>
      have hnil := h.cf2pe_assign []
      have hcib : cf2peWith (currentValue []) deployable = cf2pe deployable :=
        hnil.symm.trans (Cib.assign_id _)
      simp only [nodeChanges, lastStatus, List.filterMap_nil, List.foldlM_nil, hcib]
      rfl
  | append_singleton edits edit ih =>
      rw [List.foldlM_append, ih]
      cases edit with
      | node changed =>
          have hchanges : nodeChanges (edits ++ [.node changed]) =
              nodeChanges edits ++ [changed] := by
            simp [nodeChanges, DocumentEdit.node?]
          have hstatus : lastStatus (edits ++ [.node changed]) = lastStatus edits := by
            simp [lastStatus, DocumentEdit.process?]
          rw [hchanges, hstatus, ← h.nodeStateChangeEvent_withStatus hload]
          simp [DocumentEdit.apply]
      | process states =>
          have hchanges : nodeChanges (edits ++ [.process states]) = nodeChanges edits := by
            simp [nodeChanges, DocumentEdit.node?]
          have hstatus : lastStatus (edits ++ [.process states]) = some states := by
            simp [lastStatus, DocumentEdit.process?]
          rw [hchanges, hstatus, ← processDocument_withStatus _ (lastStatus edits)]
          simp [DocumentEdit.apply]

end Referenceable

/-! ## The document along a run -/

namespace World

variable {σ : Type}

def nodeChange (w : World σ) (n : StateChange) : Option NodeChange :=
  match n.resource with
  | none => some ⟨n.assembly, n.after, w.cape.addresses n.assembly⟩
  | some _ => none

variable [Stopwatch σ]

def edits (d : Deployable) (crmdUuid : CString) (w : World σ) (e : Event) : List DocumentEdit :=
  match e with
  | .processJob =>
      if w.cape.pe.workingSet.isSome then [] else [.process (w.status d crmdUuid)]
  | _ => ((w.changes d e).filterMap w.nodeChange).map .node

def joins (states : List NodeState) : List (CString × CString) :=
  states.map fun state => (state.uname, state.join)

def referred (w : World σ) (a parameter : CString) : CString :=
  if parameter = "hostname".toList then a else (w.cape.addresses a).getD []

structure Followed (d : Deployable) (crmdUuid : CString) (w : World σ)
    (edits : List DocumentEdit) : Prop extends w.Circling where
  recoverable : ∀ a, (w.assemblies a).recover.state ≠ .unrecoverable
  running : ∀ a, (w.assemblies a).recover.state = .running →
    lastRun (nodeChanges edits) a = some ⟨a, .running, w.cape.addresses a⟩
  named : ∀ states, lastStatus edits = some states →
    states.map (fun state => (state.id, state.uname)) =
      d.assemblies.map fun a => (a.uuid, a.name)
  untouched : w.cape.processJobs = 0 → lastStatus edits = none →
    ∀ a ∈ d.assemblies, (w.assemblies a.name).recover.state = .unknown
  current : w.cape.processJobs = 0 → ∀ states, lastStatus edits = some states →
    joins states = joins (w.status d crmdUuid)

variable {d : Deployable} {crmdUuid : CString} {w w' : World σ} {e : Event}
  {es : List DocumentEdit}

omit [Stopwatch σ] in
theorem joins_status_congr (h : ∀ a ∈ d.assemblies,
    (w'.assemblies a.name).recover.state = (w.assemblies a.name).recover.state) :
    joins (w'.status d crmdUuid) = joins (w.status d crmdUuid) := by
  simp only [joins, status, List.map_map]
  refine List.map_congr_left fun a ha => ?_
  exact congrArg (fun state => (a.name, if state = RecoverState.running then "member".toList
    else "pending".toList)) (h a ha)

theorem processed_or_kept (hsound : ∀ a, (w.assemblies a).Sound)
    (hstep : World.step d w e = .ok w') (hzero : w'.cape.processJobs = 0) :
    e = .processJob ∧ w.cape.pe.workingSet = none ∨
      w.cape.processJobs = 0 ∧ ∀ a ∈ d.assemblies,
        (w'.assemblies a.name).recover.state = (w.assemblies a.name).recover.state := by
  by_cases hprocesses : processes w e w' = true
  · have hidle := workingSet_of_processes hsound hstep hprocesses
    refine Or.inl ⟨?_, hidle⟩
    simp only [processes, decide_eq_true_eq] at hprocesses
    rcases step_outside hsound hstep with hout | ⟨rfl, -⟩ | ⟨graph, -, -, rfl⟩ |
      ⟨graph, env, -, -, rfl⟩ | ⟨graph, status, -, rfl⟩
    · exact absurd hout.progress.transitionCount hprocesses
    · rfl
    · refine absurd ?_ hprocesses
      simp only [modifyCape, World.processNextJob]
      split <;> rfl
    · exact absurd rfl hprocesses
    · cases status <;> exact absurd rfl hprocesses
  · refine Or.inr ?_
    have hkept : ¬ (statusChanges d w e w' = true ∨ 0 < w.cape.processJobs) := fun h =>
      (processJobs_pos hsound hstep (by simpa using hprocesses) h).ne' hzero
    rw [not_or] at hkept
    refine ⟨Nat.eq_zero_of_not_pos hkept.2, fun a ha => ?_⟩
    by_contra hne
    refine hkept.1 ?_
    rw [statusChanges, Bool.or_eq_true, List.any_eq_true]
    exact Or.inl ⟨a, ha, decide_eq_true hne⟩

theorem nodeChanges_edits (es : List DocumentEdit) :
    nodeChanges (es ++ w.edits d crmdUuid e) =
      nodeChanges es ++ (w.changes d e).filterMap w.nodeChange := by
  have hnodes : ∀ changes : List NodeChange,
      (changes.map DocumentEdit.node).filterMap (·.node?) = changes := by
    intro changes
    rw [List.filterMap_map]
    exact List.filterMap_some
  rw [nodeChanges, List.filterMap_append]
  refine congrArg _ ?_
  cases e with
  | processJob =>
      simp only [edits, changes]
      split <;> rfl
  | job | timer | monitorTimer | processNextJob | fire | runGraphReturn => exact hnodes _

theorem lastStatus_processed (es : List DocumentEdit) (hidle : w.cape.pe.workingSet = none) :
    lastStatus (es ++ w.edits d crmdUuid .processJob) = some (w.status d crmdUuid) := by
  simp [lastStatus, edits, hidle, DocumentEdit.process?]

theorem lastStatus_kept (es : List DocumentEdit)
    (hnot : ¬ (e = .processJob ∧ w.cape.pe.workingSet = none)) :
    lastStatus (es ++ w.edits d crmdUuid e) = lastStatus es := by
  have hnodes : ∀ changes : List NodeChange,
      (changes.map DocumentEdit.node).filterMap (·.process?) = [] := by
    intro changes
    rw [List.filterMap_map, List.filterMap_eq_nil_iff]
    exact fun _ _ => rfl
  have hnone : (w.edits d crmdUuid e).filterMap (·.process?) = [] := by
    cases e with
    | processJob =>
        have hbusy : w.cape.pe.workingSet.isSome = true :=
          Option.isSome_iff_ne_none.mpr fun hidle => hnot ⟨rfl, hidle⟩
        simp [edits, hbusy]
    | job | timer | monitorTimer | processNextJob | fire | runGraphReturn => exact hnodes _
  rw [lastStatus, List.filterMap_append, hnone, List.append_nil, lastStatus]

omit [Stopwatch σ] in
theorem Announced.running {ns : List StateChange} {changes : List NodeChange}
    (h : w.Announced w' ns)
    (hrunning : ∀ a, (w.assemblies a).recover.state = .running →
      lastRun changes a = some ⟨a, .running, w.cape.addresses a⟩) {a : CString}
    (ha : (w'.assemblies a).recover.state = .running) :
    lastRun (changes ++ ns.filterMap w.nodeChange) a =
      some ⟨a, .running, w.cape.addresses a⟩ := by
  have hstate : (w'.assemblies a).recover.state = w'.states a none := rfl
  rw [hstate] at ha
  cases h with
  | same hstates =>
      rw [hstates] at ha
      rw [List.filterMap_nil, List.append_nil]
      exact hrunning a ha
  | @changed n hbefore hne hstates hnode =>
      obtain ⟨assembly, resource, before, after⟩ := n
      rw [hstates, Knowledge.set] at ha
      cases resource with
      | some name =>
          rw [if_neg (by simp)] at ha
          have hchange : [(⟨assembly, some name, before, after⟩ : StateChange)].filterMap
              w.nodeChange = [] := rfl
          rw [hchange, List.append_nil]
          exact hrunning a ha
      | none =>
          have hchange : [(⟨assembly, none, before, after⟩ : StateChange)].filterMap w.nodeChange =
              [⟨assembly, after, w.cape.addresses assembly⟩] := rfl
          rw [hchange, lastRun_append]
          by_cases hsame : a = assembly
          · subst hsame
            rw [if_pos ⟨rfl, rfl⟩] at ha
            have hafter : after = .running := ha
            rw [if_pos ⟨hafter, rfl⟩, hafter]
          · rw [if_neg fun heq => hsame heq.1] at ha
            rw [if_neg fun heq => hsame heq.2.symm]
            exact hrunning a ha

omit [Stopwatch σ] in
theorem Announced.recoverable {ns : List StateChange} (h : w.Announced w' ns)
    (hbefore : ∀ a, (w.assemblies a).recover.state ≠ .unrecoverable) (a : CString) :
    (w'.assemblies a).recover.state ≠ .unrecoverable := by
  have hstate : (w'.assemblies a).recover.state = w'.states a none := rfl
  rw [hstate]
  cases h with
  | same hstates =>
      rw [hstates]
      exact hbefore a
  | @changed n _ _ hstates hnode =>
      rw [hstates, Knowledge.set]
      split
      case isTrue heq => exact (hnode heq.2.symm).1
      case isFalse => exact hbefore a

theorem Followed.step (h : Followed d crmdUuid w es) (hstep : World.step d w e = .ok w') :
    Followed d crmdUuid w' (es ++ w.edits d crmdUuid e) := by
  have hannounced := step_announced h.toCircling hstep h.recoverable
  have hrunning : ∀ a, (w'.assemblies a).recover.state = .running →
      lastRun (nodeChanges (es ++ w.edits d crmdUuid e)) a =
        some ⟨a, .running, w'.cape.addresses a⟩ := by
    intro a ha
    rw [nodeChanges_edits, step_addresses h.sound hstep ha]
    exact hannounced.running h.running ha
  have hkept := fun hzero => processed_or_kept h.sound hstep hzero
  by_cases hprocessed : e = .processJob ∧ w.cape.pe.workingSet = none
  · obtain ⟨rfl, hidle⟩ := hprocessed
    refine { h.toCircling.step hstep with
      recoverable := hannounced.recoverable h.recoverable, running := hrunning
      named := ?_, untouched := ?_, current := ?_ }
    · intro states hstates
      rw [lastStatus_processed es hidle] at hstates
      obtain rfl := Option.some.inj hstates
      rw [status, List.map_map]
      rfl
    · intro _ hnone
      rw [lastStatus_processed es hidle] at hnone
      cases hnone
    · intro _ states hstates
      rw [lastStatus_processed es hidle] at hstates
      obtain rfl := Option.some.inj hstates
      cases step_transition h.sound hstep
      exact joins_status_congr fun _ _ => rfl
  · refine { h.toCircling.step hstep with
      recoverable := hannounced.recoverable h.recoverable, running := hrunning
      named := ?_, untouched := ?_, current := ?_ }
    · rw [lastStatus_kept es hprocessed]
      exact h.named
    · intro hzero hnone a ha
      obtain ⟨hzero', hsame⟩ := (hkept hzero).resolve_left hprocessed
      rw [lastStatus_kept es hprocessed] at hnone
      rw [hsame a ha]
      exact h.untouched hzero' hnone a ha
    · intro hzero states hstates
      obtain ⟨hzero', hsame⟩ := (hkept hzero).resolve_left hprocessed
      rw [lastStatus_kept es hprocessed] at hstates
      rw [joins_status_congr hsame]
      exact h.current hzero' states hstates

theorem load_followed (d : Deployable) (crmdUuid : CString) (errno : ResourceId → Int)
    (answers : CString → Env) : Followed d crmdUuid (load d errno answers : World σ) [] := by
  have hstate : ∀ a, ((load d errno answers : World σ).assemblies a).recover.state = .unknown := by
    intro a
    rw [load_assemblies]
    split <;> rfl
  refine { load_circling d errno answers with
    recoverable := fun a => by simp [hstate], running := fun a ha => ?_
    named := fun states hnone => ?_
    untouched := fun _ _ a _ => hstate a.name, current := fun _ states hnone => ?_ }
  · rw [hstate] at ha
    cases ha
  · cases hnone
  · cases hnone

structure Described (deployable : Xml) (d : Deployable) (crmdUuid : CString) (w : World σ)
    (pe : Xml) (value : Xml → CString) (states : Option (List NodeState)) : Prop where
  document : pe = (cf2peWith value deployable).withStatus states
  /-- A parameter without a reference has the value of the deployable. -/
  plain : ∀ parameter, parameter.childrenNamed "reference" = [] →
    value parameter = initialValue parameter
  /-- A parameter that refers to a running node has the name or the address of that node. -/
  running : ∀ parameter reference,
    (parameter.childrenNamed "reference").head? = some reference →
    (w.assemblies (reference.attrText "assembly")).recover.state = .running →
    value parameter = w.referred (reference.attrText "assembly") (reference.attrText "parameter")
  /-- The status has one entry for every node of the configuration. -/
  nodes : ∀ status ∈ states, status.map (fun state => (state.id, state.uname)) =
    (cf2peWith value deployable).nodes.map fun node => (node.id, node.uname)
  /-- With no request to process, no node has changed yet, or the status tells which are up. -/
  untouched : w.cape.processJobs = 0 → states = none →
    ∀ a ∈ d.assemblies, (w.assemblies a.name).recover.state = .unknown
  current : w.cape.processJobs = 0 → ∀ status ∈ states,
    joins status = joins (w.status d crmdUuid)

theorem nodes_of_parseAndLoad {deployable : Xml} (h : Readable deployable)
    (hparse : parseAndLoad deployable = some d) (value : Xml → CString) :
    (cf2peWith value deployable).nodes.map (fun node => (node.id, node.uname)) =
      d.assemblies.map fun a => (a.uuid, a.name) := by
  rw [cf2peWith, List.map_map]
  refine map_eq_of_forall₂ (h.forall₂_assemblies hparse) fun assembly _ a ha => ?_
  obtain ⟨hname, huuid, -⟩ := assemblyCreate_eq ha
  exact Prod.ext huuid.symm hname.symm

/--
The references of a document that both readers agree on are loaded without an assertion.  In
every run of the daemon after that no change of the document fails, and the document for the
engine is the generated configuration and the last status: the parameters that refer to a running
node have its present name or address, and unless a request to process waits, the status tells
which nodes are up at present.
-/
theorem document_current {deployable : Xml} (h : Referenceable deployable) :
    ∃ map, loadRefs deployable = some map ∧ ∀ (d : Deployable) (crmdUuid : CString)
        (errno : ResourceId → Int) (answers : CString → Env) (events : List Event) (w : World σ),
      parseAndLoad deployable = some d → Reaches d errno answers events w →
      let es := trace (World.step d) (edits d crmdUuid) (load d errno answers : World σ) events
      ∃ pe, es.foldlM (DocumentEdit.apply map) (cf2pe deployable).toXml = some pe ∧
        Described deployable d crmdUuid w pe (currentValue (nodeChanges es)) (lastStatus es) := by
  refine ⟨_, h.loadRefs_eq, fun d crmdUuid errno answers events w hparse hreach => ?_⟩
  have hfollowed := run_trace (edits d crmdUuid) (I := fun (w : World σ) es =>
    Followed d crmdUuid w es) (fun hfollowed hstep => hfollowed.step hstep)
    (load_followed d crmdUuid errno answers) hreach
  rw [List.nil_append] at hfollowed
  refine ⟨_, h.foldlM_edits h.loadRefs_eq _, rfl, ?_, ?_, ?_, hfollowed.untouched,
    hfollowed.current⟩
  · intro parameter hnone
    rw [currentValue, hnone]
    rfl
  · intro parameter reference hreference hrunning
    rw [currentValue, hreference, Option.bind_some, referredValue, hfollowed.running _ hrunning]
    rfl
  · intro status hstatus
    rw [nodes_of_parseAndLoad h.toReadable hparse]
    exact hfollowed.named status hstatus

def victim : CString := "victim".toList

def victimUp : List Event :=
  [.job victim .myInstanceStateGet workingEnv, .job victim .connectExecute workingEnv,
    .job victim .sshAssemblyConnect workingEnv, .processJob]

theorem test1Conf_referenceable : Referenceable test1Conf :=
  { toAgreeable := test1Conf_agreeable
    parameters_once := by decide +kernel
    parameter_names_nodup := by decide +kernel
    not_executable_url := by decide +kernel
    references_once := by decide +kernel
    references_complete := by decide +kernel }

/-- The address of `victim` reaches the parameters of `bar`. -/
theorem document_current_victimUp :
    ∃ (d : Deployable) (map : List AssemblyRefs) (w : World Ring) (pe : Xml)
      (value : Xml → CString) (states : List NodeState),
      parseAndLoad test1Conf = some d ∧ loadRefs test1Conf = some map ∧
      Reaches d (fun _ => 0) (fun _ => workingEnv) victimUp w ∧
      (trace (World.step d) (edits d [])
          (load d (fun _ => 0) fun _ => workingEnv : World Ring) victimUp).foldlM
        (DocumentEdit.apply map) (cf2pe test1Conf).toXml = some pe ∧
      pe = (cf2peWith value test1Conf).withStatus (some states) ∧
      value (scalar "mysql_ip" (victimReference "ipaddress")) = "1.2.3.4".toList ∧
      joins states = [("bar".toList, "pending".toList), (victim, "member".toList)] := by
  have hevaluated : (parseAndLoad test1Conf).any (fun d => endsIn (World.step d)
      (load d (fun _ => 0) fun _ => workingEnv : World Ring) victimUp fun w =>
        decide ((w.assemblies victim).recover.state = .running ∧
          w.cape.addresses victim = some "1.2.3.4".toList ∧ w.cape.processJobs = 0 ∧
          joins (w.status d []) = [("bar".toList, "pending".toList),
            (victim, "member".toList)] ∧
          (lastStatus (trace (World.step d) (edits d [])
            (load d (fun _ => 0) fun _ => workingEnv : World Ring) victimUp)).isSome)) = true := by
    decide +kernel
  obtain ⟨d, hparse, hends⟩ := (Option.any_eq_true _ _).mp hevaluated
  obtain ⟨w, hreach, hw⟩ := exists_of_endsIn hends
  obtain ⟨hrunning, haddress, hzero, hjoins, hstatus⟩ := of_decide_eq_true hw
  obtain ⟨states, hstates⟩ := Option.isSome_iff_exists.mp hstatus
  obtain ⟨map, hload, hdocument⟩ := document_current (σ := Ring) test1Conf_referenceable
  obtain ⟨pe, hfold, hdescribed⟩ := hdocument d [] _ _ victimUp w hparse hreach
  have hpe := hdescribed.document
  rw [hstates] at hpe
  have hvalue := hdescribed.running (scalar "mysql_ip" (victimReference "ipaddress"))
    (victimReference "ipaddress") rfl hrunning
  refine ⟨d, map, w, pe, _, states, hparse, hload, hreach, hfold, hpe, hvalue.trans ?_,
    (hdescribed.current hzero states hstates).trans hjoins⟩
  rw [referred, if_neg (by decide +kernel)]
  exact congrArg (·.getD []) haddress

end World

end PacemakerCloud
