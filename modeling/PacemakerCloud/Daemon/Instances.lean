import PacemakerCloud.Daemon.Completion

/-!
# Instances in the cloud

An instance is created when an assembly is loaded and whenever its node is
restarted; it is destroyed when a resource of the assembly escalates.  The restart
destroys nothing itself, so a node that fails without an escalation before it
leaves its old instance behind.
-/

namespace PacemakerCloud

open Foundation

namespace Cape

variable {σ : Type} {c c' c'' : Cape σ}

def Shrinks (c c' : Cape σ) : Prop :=
  ∀ a, (c'.cloud a).live.Sublist (c.cloud a).live

namespace Shrinks

theorem trans (h : Shrinks c c') (h' : Shrinks c' c'') : Shrinks c c'' :=
  fun a => (h' a).trans (h a)

theorem of_cloud (h : c'.cloud = c.cloud) : Shrinks c c' := fun a => by rw [h]

theorem peResourceUnref (c : Cape σ) (o : Nat) : Shrinks c (c.peResourceUnref o) :=
  of_cloud (Unwinds.peResourceUnref c o).cloud

theorem execute (c : Cape σ) (o : Nat) (ec : Int) : Shrinks c (c.execute o ec) := by
  refine of_cloud ?_
  simp only [Cape.execute, confirmFirst]
  split <;> rfl

theorem settle (c : Cape σ) (o : Nat) (returnCode : Int) :
    Shrinks c (c.settle o returnCode) :=
  (of_cloud rfl : Shrinks c (c.peResourceCompleted o returnCode)).trans
    (peResourceUnref _ o)

section

variable [Stopwatch σ] {d : Deployable} {env : Env} {o : Nat}

theorem completed {ec : Int} (hok : c.resourceActionCompleted d env o ec = .ok c') :
    Shrinks c c' := by
  obtain ⟨mid, hmid, hend⟩ := resourceActionCompleted_ok hok
  have hshrinks : Shrinks c mid := (execute c o ec).trans hmid.live
  rcases hend with ⟨-, hc⟩ | ⟨r, -, -, hc⟩ <;> rw [hc]
  · exact hshrinks.trans (peResourceUnref mid o)
  · exact hshrinks

theorem completion {sshRc : Int} (hok : c.resourceActionCompletion d env o sshRc = .ok c') :
    Shrinks c c' := by
  obtain ⟨mid, hmid, hc⟩ := bind_eq_ok.mp hok
  rw [← Except.ok.inj hc]
  exact (completed hmid).trans (peResourceUnref mid o)

theorem executeCb {state : RecoverState} {queued : Bool}
    (h : c.Executed d env o state c' queued) : Shrinks c c' := by
  have hset : ∀ r, Shrinks c (c.setResource o r) := fun _ => of_cloud rfl
  cases h with
  | offline hstate hok =>
      split
      · exact (completed hok).trans (of_cloud rfl)
      · exact completed hok
  | foreign => exact (hset _).trans (settle _ _ _)
  | @monitored r =>
      have hunstop : Shrinks c ((c.setResource o (some r)).setStopped r false) :=
        of_cloud rfl
      exact hunstop.trans (settle _ _ _)
  | monitor | probe | start => exact of_cloud rfl
  | @stop r =>
      have hstop := (Unwinds.stopMonitor (c.setResource o (some r)) r).cloud
      exact of_cloud hstop
  | delete =>
      exact (hset _).trans ((of_cloud (Unwinds.clearHistory _ _).cloud).trans (settle _ _ _))

end

end Shrinks

end Cape

namespace World

variable {σ : Type} [Stopwatch σ] {d : Deployable} {w : World σ} {e : Event}

/-- A node is restarted without a new instance, or none of the old ones is left. -/
def Isolates (w : World σ) (e : Event) : Prop :=
  ∀ x ∈ w.restarting e, x.2.createReply.instance? = none ∨ (w.cape.cloud x.1).live = []

instance (w : World σ) (e : Event) : Decidable (Isolates w e) :=
  inferInstanceAs (Decidable (∀ x ∈ w.restarting e, _))

theorem Change.live {q : CString → List Nat} {c : Cape σ}
    (h : ∀ a, (w.cape.cloud a).live.length ≤ 1) (hisolates : Isolates w e)
    (hchange : w.Change d e q c) (a : CString) : (c.cloud a).live.length ≤ 1 := by
  have hshrink : ∀ {c}, w.cape.Shrinks c → (c.cloud a).live.length ≤ 1 :=
    fun hshrinks => (hshrinks a).length_le.trans (h a)
  cases hchange with
  | idle hkept => exact hshrink hkept.live
  | flushed htimeout hkept => exact hshrink hkept.live
  | @restarted e b env hrestart =>
      have hcloud : (w.cape.scheduleProcessing.nodeOpHistoryClear b).cloud = w.cape.cloud :=
        (Cape.Unwinds.clearHistory w.cape.scheduleProcessing _).cloud
      by_cases ha : a = b
      · subst ha
        simp only [Cape.instanceRequests, Cape.modifyCloud, Function.update_self, hcloud,
          List.length_append]
        rcases hisolates (a, env) hrestart with hnone | hempty
        · have hnone : env.createReply.instance? = none := hnone
          simpa [hnone] using h a
        · have hempty : (w.cape.cloud a).live = [] := hempty
          simp [hempty]
      · simpa only [Cape.instanceRequests, Cape.modifyCloud, Function.update_of_ne ha,
          hcloud] using h a
  | completed houtputs hactions hok => exact hshrink (.completion hok)
  | @monitorOffline handle o env c htimer hok =>
      exact hshrink (Cape.Shrinks.trans (Cape.Bookkeeping.timerDel w.cape handle).live
        (.completed hok))
  | monitorRequest => exact hshrink (.of_cloud rfl)
  | engine hengine => exact hshrink hengine.same.1.live
  | @fire graph spec env c queued hgraph hexec =>
      have hcreate : w.cape.Shrinks (execRscAction w.cape graph spec) := .of_cloud rfl
      exact hshrink (hcreate.trans (.executeCb hexec))

omit [Stopwatch σ] in
theorem foldl_instanceCreate_live (answers : CString → Env) (nodes : List AssemblyNode)
    (w : World σ) (a : CString) :
    ((nodes.foldl (fun w node => core.instanceCreate w node.name (answers node.name))
        w).cape.cloud a).live.length ≤
      (w.cape.cloud a).live.length + (nodes.map AssemblyNode.name).count a := by
  induction nodes generalizing w with
  | nil => simp
  | cons node nodes ih =>
      refine (ih _).trans ?_
      simp only [Core.instanceCreate, core, modifyCape, modifyAssembly, Cape.instanceRequests,
        Cape.modifyCloud, List.map_cons]
      by_cases ha : a = node.name
      · have hone := Option.length_toList_le (o := (answers node.name).createReply.instance?)
        simp only [ha, Function.update_self, List.length_append, List.count_cons_self]
        omega
      · rw [Function.update_of_ne ha, List.count_cons_of_ne (Ne.symm ha)]

theorem load_live (d : Deployable) (errno : ResourceId → Int) (answers : CString → Env)
    (a : CString) :
    ((load d errno answers : World σ).cape.cloud a).live.length ≤ 1 := by
  refine (foldl_instanceCreate_live answers d.assemblies (empty d errno) a).trans ?_
  simpa [empty] using List.nodup_iff_count_le_one.mp d.names_nodup a

/--
In every run that restarts a node only when none of its instances is left, or the
new one is not created, an assembly has at most one instance.
-/
theorem one_live_instance_of_isolates {errno : ResourceId → Int}
    {answers : CString → Env} {events : List Event}
    (halong : Along (step d) Isolates (load d errno answers : World σ) events)
    (h : Reaches d errno answers events w) (a : CString) :
    (w.cape.cloud a).live.length ≤ 1 := by
  have hkept := run_invariant (I := Kept fun l => ∀ a, (l.cape.cloud a).live.length ≤ 1)
    (fun hkept hisolates => hkept.step fun hchange => hchange.live hkept.fact hisolates)
    (.load (load_live d errno answers)) halong h
  exact hkept.fact a

/--
The monitor finds the service down, which escalates and destroys the instance; then
the health check fails, and the restart creates another one.
-/
def escalating : List Event :=
  monitoring ++ [.monitorTimer 1 workingEnv,
    .job bar (.assemblySshExec 3) { workingEnv with exitStatus := 3 },
    .timer bar 3 workingEnv,
    .job bar (.assemblySshExec 4)
      { workingEnv with exitStatus := 1, createReply := .created "i-2".toList }]

theorem one_live_instance_of_isolates_escalating :
    ∃ w : World Ring, Reaches (barWith "1".toList) (fun _ => 0) (fun _ => workingEnv)
        escalating w ∧
      (w.cape.cloud bar).live = ["i-2".toList] ∧
      ∀ a, (w.cape.cloud a).live.length ≤ 1 := by
  obtain ⟨w, hreach, hlive⟩ : ∃ w : World Ring, Reaches (barWith "1".toList) (fun _ => 0)
      (fun _ => workingEnv) escalating w ∧ (w.cape.cloud bar).live = ["i-2".toList] :=
    exists_reaches (by decide +kernel)
  exact ⟨w, hreach, hlive, one_live_instance_of_isolates (by decide +kernel) hreach⟩

/-- The health check of the node fails, and nothing has destroyed its instance. -/
theorem restart_leaves_instance :
    ∃ w, BarReaches (bringUp ++ [.job bar (.assemblySshExec 0)
        { workingEnv with exitStatus := 1, createReply := .created "i-2".toList }]) w ∧
      (w.cape.cloud bar).live = ["i-1".toList, "i-2".toList] :=
  exists_reaches (by decide +kernel)

end World

end PacemakerCloud
