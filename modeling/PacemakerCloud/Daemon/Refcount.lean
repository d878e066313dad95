import PacemakerCloud.Daemon.Completion

/-!
# References to operations

An operation is referenced by the `monitor_op` of its resource, by an armed timer
and by a queued command.  A timer or a command stands for one reference of the
monitor's own, and a command for one of the transport as well.  The count covers
them in every run in which `recurring_monitor_stop` never finds the timer of
another operation under `monitor_timer`.
-/

namespace PacemakerCloud

open Foundation

namespace Cape

variable {σ : Type}

/-- A running `monitor_timer` of the resource belongs to its `monitor_op`. -/
def OwnTimer (c : Cape σ) (r : ResourceId) : Prop :=
  ∀ o ∈ (c.resources r).monitorOp, ∀ x ∈ c.monitorTimers,
    x.1 = (c.resources r).monitorTimer → x.2 = o

instance (c : Cape σ) (r : ResourceId) : Decidable (c.OwnTimer r) :=
  inferInstanceAs (Decidable (∀ o ∈ (c.resources r).monitorOp, _))

theorem OwnTimer.unwinds {c c' : Cape σ} {r : ResourceId} (h : c.OwnTimer r)
    (hunwinds : c.Unwinds c') : c'.OwnTimer r := by
  intro o ho x hx hhandle
  rw [hunwinds.monitorTimer] at hhandle
  rcases hunwinds.monitorOp r with hnone | hsame
  · rw [hnone] at ho
    cases ho
  · rw [hsame] at ho
    exact h o ho x (hunwinds.timers.mem hx) hhandle

theorem uint32Pred_of_ne_zero {n : Nat} (h : n ≠ 0) : uint32Pred n = n - 1 := by
  simp [uint32Pred, h]

theorem timerAdd_unref (c : Cape σ) (r : ResourceId) (o : Nat) :
    (c.monitorTimerAdd r o).peResourceUnref o =
      (c.peResourceUnref o).monitorTimerAdd r o := by
  simp only [peResourceUnref]
  rw [apply_ite (monitorTimerAdd · r o)]
  rfl

/-! Stopping monitors leaves an operation alone that is no `monitor_op`. -/

theorem stopMonitor_ops {c : Cape σ} {x : Nat}
    (hx : ∀ r, (c.resources r).monitorOp ≠ some x) (r : ResourceId) :
    (c.stopMonitor r).ops x = c.ops x := by
  unfold stopMonitor
  split
  case h_2 => rfl
  case h_1 o hmonitor =>
    have hne : x ≠ o := by
      rintro rfl
      exact hx r hmonitor
    unfold recurringMonitorStop
    split
    · rfl
    · simp only [peResourceUnref_ops, modifyResource, Function.update_of_ne hne]
      split
      · simp [timerDel, Function.update_of_ne hne]
      · rfl

theorem clearEntry_ops {c : Cape σ} {x : Nat}
    (hx : ∀ r, (c.resources r).monitorOp ≠ some x) (oh : OperationHistory) :
    (c.clearEntry oh).ops x = c.ops x := by
  simp only [clearEntry, digestFree, stopWaitingMonitor]
  split
  · exact stopMonitor_ops hx _
  · rfl

theorem Unwinds.unmonitored {c c' : Cape σ} {x : Nat} (h : c.Unwinds c')
    (hx : ∀ r, (c.resources r).monitorOp ≠ some x) (r : ResourceId) :
    (c'.resources r).monitorOp ≠ some x := by
  rcases h.monitorOp r with hnone | hsame
  · simp [hnone]
  · rw [hsame]
    exact hx r

theorem foldl_clearEntry_ops {x : Nat} {drop : ResourceId → Bool}
    (entries : List OperationHistory) {c : Cape σ}
    (hx : ∀ r, (c.resources r).monitorOp ≠ some x) :
    (entries.foldl (fun c oh => if drop oh.resource then c.clearEntry oh else c) c).ops x =
      c.ops x := by
  induction entries generalizing c with
  | nil => rfl
  | cons oh entries ih =>
      rw [List.foldl_cons]
      split
      · rw [ih ((Unwinds.clearEntry c oh).unmonitored hx), clearEntry_ops hx]
      · exact ih hx

theorem clearHistory_ops {c : Cape σ} {x : Nat}
    (hx : ∀ r, (c.resources r).monitorOp ≠ some x) (drop : ResourceId → Bool) :
    (c.clearHistory drop).ops x = c.ops x :=
  foldl_clearEntry_ops c.history hx

end Cape

namespace Ledger

variable {σ : Type} {l l' : Ledger σ} {o : Nat}

/-! ## The references of an operation -/

def monitors (l : Ledger σ) (o : Nat) : Nat :=
  match (l.cape.ops o).resource with
  | some r => if (l.cape.resources r).monitorOp = some o then 1 else 0
  | none => 0

def timers (l : Ledger σ) (o : Nat) : Nat :=
  l.cape.monitorTimers.countP (·.2 = o)

def commands (l : Ledger σ) (o : Nat) : Nat :=
  (l.actions (l.cape.ops o).hostname).count o

def Spare (l : Ledger σ) (o k : Nat) : Prop :=
  l.monitors o + l.timers o + 2 * l.commands o + k ≤ (l.cape.ops o).refcount

structure Counted (l : Ledger σ) (o : Nat) : Prop where
  single : l.timers o + l.commands o ≤ 1
  enough : l.Spare o 0
  bound : (l.cape.ops o).refcount + l.timers o ≤ 3
  clean : (l.cape.ops o).unrefAtZero = false

structure Held (l : Ledger σ) : Prop where
  owner : ∀ {r o}, (l.cape.resources r).monitorOp = some o →
    (l.cape.ops o).resource = some r ∧ o < l.cape.opCount
  counted : ∀ o < l.cape.opCount, l.Counted o

theorem Held.monitors_eq_one (h : Held l) {r : ResourceId}
    (hr : (l.cape.resources r).monitorOp = some o) : l.monitors o = 1 := by
  simp [monitors, (h.owner hr).1, hr]

structure Eases (l l' : Ledger σ) : Prop where
  opCount : l'.cape.opCount = l.cape.opCount
  refcount : ∀ o, (l'.cape.ops o).refcount = (l.cape.ops o).refcount
  unrefAtZero : ∀ o, (l'.cape.ops o).unrefAtZero = (l.cape.ops o).unrefAtZero
  resource : ∀ o, (l'.cape.ops o).resource = (l.cape.ops o).resource
  monitorOp : ∀ r, (l'.cape.resources r).monitorOp = none ∨
    (l'.cape.resources r).monitorOp = (l.cape.resources r).monitorOp
  timers : ∀ o, l'.timers o ≤ l.timers o
  commands : ∀ o, l'.commands o ≤ l.commands o

theorem monitors_le (hresource : (l'.cape.ops o).resource = (l.cape.ops o).resource)
    (hmonitorOp : ∀ r, (l'.cape.resources r).monitorOp = none ∨
      (l'.cape.resources r).monitorOp = (l.cape.resources r).monitorOp) :
    l'.monitors o ≤ l.monitors o := by
  unfold monitors
  rw [hresource]
  cases (l.cape.ops o).resource with
  | none => exact le_rfl
  | some r =>
      rcases hmonitorOp r with hnone | hsame
      · simp [hnone]
      · simp [hsame]

theorem Counted.of_counts {m t q : Nat} (hmonitors : l.monitors o ≤ m)
    (htimers : l.timers o ≤ t) (hcommands : l.commands o ≤ q)
    (hclean : (l.cape.ops o).unrefAtZero = false) (hsingle : t + q ≤ 1)
    (henough : m + t + 2 * q ≤ (l.cape.ops o).refcount)
    (hbound : (l.cape.ops o).refcount + t ≤ 3) : l.Counted o :=
  ⟨by omega, by unfold Spare; omega, by omega, hclean⟩

theorem Counted.of_op (h : l.Counted o) (hop : l'.cape.ops o = l.cape.ops o)
    (hmonitorOp : ∀ r, (l'.cape.resources r).monitorOp = none ∨
      (l'.cape.resources r).monitorOp = (l.cape.resources r).monitorOp)
    (htimers : l'.timers o ≤ l.timers o) (hcommands : l'.commands o ≤ l.commands o) :
    l'.Counted o := by
  obtain ⟨hsingle, henough, hbound, hclean⟩ := h
  have hcounts := Counted.of_counts (monitors_le (congrArg _ hop) hmonitorOp) htimers
    hcommands
  rw [hop] at hcounts
  exact hcounts hclean hsingle henough hbound

namespace Eases

theorem spare (h : Eases l l') {k : Nat} (hspare : l.Spare o k) : l'.Spare o k := by
  have hmonitors := monitors_le (h.resource o) h.monitorOp
  have htimers := h.timers o
  have hcommands := h.commands o
  unfold Spare at hspare ⊢
  rw [h.refcount]
  omega

theorem held (h : Eases l l') (hheld : Held l) : Held l' where
  owner {r o} hr := by
    rw [h.resource, h.opCount]
    rcases h.monitorOp r with hnone | hsame
    · simp [hnone] at hr
    · exact hheld.owner (hsame ▸ hr)
  counted o ho := by
    have hcounted := hheld.counted o (h.opCount ▸ ho)
    have htimers := h.timers o
    have hcommands := h.commands o
    have hsingle := hcounted.single
    have hbound := hcounted.bound
    refine ⟨by omega, h.spare hcounted.enough, ?_, ?_⟩
    · rw [h.refcount]
      omega
    · rw [h.unrefAtZero]
      exact hcounted.clean

theorem of_unwinds {c : Cape σ} (h : l.cape.Unwinds c)
    (hrefcount : ∀ o, (c.ops o).refcount = (l.cape.ops o).refcount)
    (hunref : ∀ o, (c.ops o).unrefAtZero = (l.cape.ops o).unrefAtZero) :
    Eases l { l with cape := c } where
  opCount := h.opCount
  refcount := hrefcount
  unrefAtZero := hunref
  resource := h.resource
  monitorOp := h.monitorOp
  timers _ := h.timers.countP_le
  commands o := by simp only [Ledger.commands, h.hostname, le_refl]

theorem of_same {c : Cape σ} (h : l.cape.SameMonitors c) : Eases l { l with cape := c } where
  opCount := h.opCount
  refcount o := by rw [h.ops]
  unrefAtZero o := by rw [h.ops]
  resource o := by rw [h.ops]
  monitorOp r := Or.inr (h.monitorOp r)
  timers _ := h.timers.countP_le
  commands o := by simp only [Ledger.commands, h.ops, le_refl]

theorem of_resources {c : Cape σ} (hops : c.ops = l.cape.ops)
    (hopCount : c.opCount = l.cape.opCount) (htimers : c.monitorTimers = l.cape.monitorTimers)
    (hmonitorOp : ∀ r, (c.resources r).monitorOp = (l.cape.resources r).monitorOp) :
    Eases l { l with cape := c } where
  opCount := hopCount
  refcount o := by rw [hops]
  unrefAtZero o := by rw [hops]
  resource o := by rw [hops]
  monitorOp r := Or.inr (hmonitorOp r)
  timers o := by simp only [Ledger.timers, htimers, le_refl]
  commands o := by simp only [Ledger.commands, hops, le_refl]

theorem of_setStopped (l : Ledger σ) (r : ResourceId) (stopped : Bool) :
    Eases l { l with cape := l.cape.setStopped r stopped } := by
  refine of_resources rfl rfl rfl fun r' => ?_
  by_cases hr : r' = r <;> simp [Cape.setStopped, Cape.modifyResource, hr]

theorem of_queue {a : CString} {os : List Nat} (h : os.Sublist (l.actions a)) :
    Eases l { l with actions := Function.update l.actions a os } where
  opCount := rfl
  refcount _ := rfl
  unrefAtZero _ := rfl
  resource _ := rfl
  monitorOp _ := Or.inr rfl
  timers _ := le_rfl
  commands o := by
    by_cases ha : (l.cape.ops o).hostname = a
    · subst ha
      simpa [Ledger.commands] using h.count_le o
    · simp [Ledger.commands, Function.update_of_ne ha]

theorem of_execute (l : Ledger σ) (o : Nat) (ec : Int) :
    Eases l { l with cape := l.cape.execute o ec } := by
  have hop : ∀ x, ((l.cape.execute o ec).ops x).refcount = (l.cape.ops x).refcount ∧
      ((l.cape.execute o ec).ops x).unrefAtZero = (l.cape.ops x).unrefAtZero ∧
      ((l.cape.execute o ec).ops x).resource = (l.cape.ops x).resource ∧
      ((l.cape.execute o ec).ops x).hostname = (l.cape.ops x).hostname := by
    intro x
    by_cases hx : x = o <;> simp [hx]
  constructor
  case opCount => simp
  case refcount => exact fun x => (hop x).1
  case unrefAtZero => exact fun x => (hop x).2.1
  case resource => exact fun x => (hop x).2.2.1
  case monitorOp =>
    intro r
    simp only [Cape.execute, Cape.confirmFirst]
    split <;> exact Or.inr rfl
  case timers => exact fun x => by simp [Ledger.timers]
  case commands => exact fun x => by simp only [Ledger.commands, (hop x).2.2.2, le_refl]

end Eases

/-! ## Taking and dropping references -/

theorem Spare.unref {k : Nat} (h : l.Spare o (k + 1)) :
    Spare { l with cape := l.cape.peResourceUnref o } o k := by
  have hunwinds := Cape.Unwinds.peResourceUnref l.cape o
  have hmonitors : monitors { l with cape := l.cape.peResourceUnref o } o ≤ l.monitors o :=
    monitors_le (hunwinds.resource o) hunwinds.monitorOp
  have htimers : timers { l with cape := l.cape.peResourceUnref o } o ≤ l.timers o :=
    hunwinds.timers.countP_le
  have hcommands : commands { l with cape := l.cape.peResourceUnref o } o = l.commands o := by
    simp only [Ledger.commands, hunwinds.hostname]
  unfold Spare at h ⊢
  have hpos : (l.cape.ops o).refcount ≠ 0 := by omega
  simp only [Cape.peResourceUnref_ops, Function.update_self,
    Cape.uint32Pred_of_ne_zero hpos]
  omega

theorem Held.unref (h : Held l) (hlt : o < l.cape.opCount) (hspare : l.Spare o 1) :
    Held { l with cape := l.cape.peResourceUnref o } := by
  have hunwinds := Cape.Unwinds.peResourceUnref l.cape o
  constructor
  case owner =>
    intro r x hr
    rw [Cape.peResourceUnref_resources] at hr
    simpa only [hunwinds.resource, hunwinds.opCount] using h.owner hr
  case counted =>
    intro x hx
    have hcounted := h.counted x (hunwinds.opCount ▸ hx)
    have hcommands : commands { l with cape := l.cape.peResourceUnref o } x =
        l.commands x := by
      simp only [Ledger.commands, hunwinds.hostname]
    have htimers : timers { l with cape := l.cape.peResourceUnref o } x ≤ l.timers x :=
      hunwinds.timers.countP_le
    by_cases hxo : x = o
    · subst hxo
      obtain ⟨hsingle, -, hbound, hclean⟩ := hcounted
      have hcounts := Counted.of_counts
        (monitors_le (hunwinds.resource x) hunwinds.monitorOp) htimers hcommands.le
      unfold Spare at hspare
      have hpos : (l.cape.ops x).refcount ≠ 0 := by omega
      simp only [Cape.peResourceUnref_ops, Function.update_self,
        Cape.uint32Pred_of_ne_zero hpos] at hcounts
      exact hcounts (by simp [hclean, hpos]) hsingle (by omega) (by omega)
    · refine hcounted.of_op ?_ hunwinds.monitorOp htimers hcommands.le
      simp [Function.update_of_ne hxo]

/--
No timer and no command holds the operation, and its count has `k` to spare, which
is all but at most one.
-/
structure Ready (l : Ledger σ) (o k : Nat) : Prop where
  timers : l.timers o = 0
  commands : l.commands o = 0
  spare : l.Spare o k
  bound : (l.cape.ops o).refcount ≤ k + 1

theorem Ready.ease {k : Nat} (h : l.Ready o k) (heases : Eases l l') : l'.Ready o k where
  timers := Nat.le_zero.mp (h.timers ▸ heases.timers o)
  commands := Nat.le_zero.mp (h.commands ▸ heases.commands o)
  spare := heases.spare h.spare
  bound := heases.refcount o ▸ h.bound

theorem Ready.unref {k : Nat} (h : l.Ready o (k + 1)) :
    Ready { l with cape := l.cape.peResourceUnref o } o k := by
  have hunwinds := Cape.Unwinds.peResourceUnref l.cape o
  refine ⟨Nat.le_zero.mp (h.timers ▸ hunwinds.timers.countP_le), ?_, h.spare.unref, ?_⟩
  · simpa only [Ledger.commands, hunwinds.hostname] using h.commands
  · have hbound := h.bound
    have hspare := h.spare
    unfold Spare at hspare
    have hpos : (l.cape.ops o).refcount ≠ 0 := by omega
    simp only [Cape.peResourceUnref_ops, Function.update_self,
      Cape.uint32Pred_of_ne_zero hpos]
    omega

theorem Held.hand (h : Held l) (hready : l.Ready o 1) {a : CString}
    (ha : (l.cape.ops o).hostname = a) :
    Held ⟨l.cape.hand o, Function.update l.actions a (l.actions a ++ [o])⟩ := by
  subst ha
  have hold : ∀ x, x ≠ o → (l.cape.hand o).ops x = l.cape.ops x := fun x hx => by
    simp [Cape.hand, Cape.peResourceRef, Cape.modifyOp, Function.update_of_ne hx]
  have hop : (l.cape.hand o).ops o =
      { l.cape.ops o with refcount := (l.cape.ops o).refcount + 1 } := by
    have hbound := hready.bound
    simp only [Cape.hand, Cape.peResourceRef, Cape.modifyOp, Function.update_self]
    rw [Nat.mod_eq_of_lt (by omega)]
  have hresource : ∀ x, ((l.cape.hand o).ops x).resource = (l.cape.ops x).resource := by
    intro x
    by_cases hx : x = o
    · rw [hx, hop]
    · rw [hold x hx]
  refine ⟨fun {r x} hr => ⟨(hresource x).trans (h.owner hr).1, (h.owner hr).2⟩,
    fun x hx => ?_⟩
  have hcounted := h.counted x hx
  by_cases hxo : x = o
  · subst hxo
    have hspare := hready.spare
    have hidle := hready.commands
    have hle := hready.bound
    unfold Spare at hspare
    have hmonitors : monitors ⟨l.cape.hand x, Function.update l.actions
        (l.cape.ops x).hostname (l.actions (l.cape.ops x).hostname ++ [x])⟩ x ≤
        l.monitors x := monitors_le (hresource x) fun _ => Or.inr rfl
    have hcounts := Counted.of_counts (t := 0) (q := 1) hmonitors hready.timers.le
      (by unfold Ledger.commands at hidle ⊢; simp [hop, hidle])
    simp only [hop] at hcounts
    exact hcounts hcounted.clean (by omega) (by omega) (by omega)
  · refine hcounted.of_op (hold x hxo) (fun _ => Or.inr rfl) le_rfl ?_
    simp only [Ledger.commands, hold x hxo]
    by_cases ha : (l.cape.ops x).hostname = (l.cape.ops o).hostname
    · simp [ha, Ne.symm hxo]
    · simp [Function.update_of_ne ha]

theorem Held.arm (h : Held l) (hready : l.Ready o 1) (r : ResourceId) :
    Held { l with cape := l.cape.monitorTimerAdd r o } := by
  have hmonitorOp : ∀ r', ((l.cape.monitorTimerAdd r o).resources r').monitorOp =
      (l.cape.resources r').monitorOp := by
    intro r'
    by_cases hr : r' = r <;> simp [Cape.monitorTimerAdd, hr]
  refine ⟨fun hr => h.owner (hmonitorOp _ ▸ hr), fun x hx => ?_⟩
  have hmonitors : monitors { l with cape := l.cape.monitorTimerAdd r o } x ≤
      l.monitors x := monitors_le rfl fun r' => Or.inr (hmonitorOp r')
  have htimers : timers { l with cape := l.cape.monitorTimerAdd r o } x =
      l.timers x + if o = x then 1 else 0 := by
    simp [Ledger.timers, Cape.monitorTimerAdd, List.countP_append, List.countP_cons]
  obtain ⟨hsingle, henough, hbound, hclean⟩ := h.counted x hx
  by_cases hxo : o = x
  · subst hxo
    have hspare := hready.spare
    have hle := hready.bound
    have hnone := hready.timers
    unfold Spare at hspare
    rw [if_pos rfl, hnone] at htimers
    exact .of_counts hmonitors htimers.le hready.commands.le hclean (by omega)
      (show _ ≤ (l.cape.ops o).refcount by omega)
      (show (l.cape.ops o).refcount + _ ≤ _ by omega)
  · rw [if_neg hxo] at htimers
    exact .of_counts hmonitors htimers.le le_rfl hclean hsingle henough hbound

theorem Held.done (h : Held l) (hlt : o < l.cape.opCount) {a : CString} {rest : List Nat}
    (hhost : (l.cape.ops o).hostname = a) (hactions : l.actions a = o :: rest) :
    Ready { l with actions := Function.update l.actions a rest } o 2 := by
  obtain ⟨hsingle, henough, hbound, -⟩ := h.counted o hlt
  have hcommands : l.commands o = rest.count o + 1 := by
    simp [Ledger.commands, hhost, hactions]
  have hrest : commands { l with actions := Function.update l.actions a rest } o =
      rest.count o := by
    simp [Ledger.commands, hhost]
  unfold Spare at henough
  refine ⟨?_, by omega, ?_, ?_⟩
  · exact Nat.le_zero.mp (show l.timers o ≤ 0 by omega)
  · have hmonitors : monitors { l with actions := Function.update l.actions a rest } o =
        l.monitors o := rfl
    have htimers : timers { l with actions := Function.update l.actions a rest } o =
        l.timers o := rfl
    unfold Spare
    simp only [hmonitors, htimers, hrest]
    omega
  · exact show (l.cape.ops o).refcount ≤ 3 by omega

theorem Held.fired (h : Held l) {handle : Nat}
    (htimer : (handle, o) ∈ l.cape.monitorTimers) (hlt : o < l.cape.opCount) :
    Ready { l with cape := l.cape.timerDel handle } o 1 := by
  obtain ⟨hsingle, henough, hbound, -⟩ := h.counted o hlt
  have hless : timers { l with cape := l.cape.timerDel handle } o < l.timers o :=
    countP_filter_lt htimer (by simp) (by simp)
  have hcommands : commands { l with cape := l.cape.timerDel handle } o =
      l.commands o := rfl
  have hmonitors : monitors { l with cape := l.cape.timerDel handle } o =
      l.monitors o := rfl
  unfold Spare at henough
  refine ⟨by omega, by omega, ?_, show (l.cape.ops o).refcount ≤ 2 by omega⟩
  unfold Spare
  exact show _ ≤ (l.cape.ops o).refcount by omega

section

variable [Stopwatch σ] {d : Deployable} {env : Env} {c c' : Cape σ}
  {q : CString → List Nat}

omit [Stopwatch σ] in
theorem Held.executed {ec : Int} {k : Nat} (h : Held ⟨c, q⟩) (hready : Ready ⟨c, q⟩ o k)
    (hkept : (c.execute o ec).Bookkeeping c') : Held ⟨c', q⟩ ∧ Ready ⟨c', q⟩ o k := by
  have hexecute : Eases ⟨c, q⟩ ⟨c.execute o ec, q⟩ := .of_execute ⟨c, q⟩ o ec
  have heases : Eases ⟨c.execute o ec, q⟩ ⟨c', q⟩ := .of_same hkept.toSameMonitors
  exact ⟨heases.held (hexecute.held h), (hready.ease hexecute).ease heases⟩

theorem Held.completed {ec : Int} (h : Held ⟨c, q⟩) (hlt : o < c.opCount)
    (hready : Ready ⟨c, q⟩ o 1)
    (hok : c.resourceActionCompleted d env o ec = .ok c') : Held ⟨c', q⟩ := by
  obtain ⟨mid, hmid, hend⟩ := Cape.resourceActionCompleted_ok hok
  obtain ⟨hheld, hready⟩ := h.executed hready hmid
  rcases hend with ⟨-, hc⟩ | ⟨r, -, -, hc⟩ <;> rw [hc]
  · exact hheld.unref (by simpa [hmid.opCount] using hlt) hready.spare
  · exact hheld.arm hready r

theorem Held.completion {sshRc : Int} (h : Held ⟨c, q⟩) (hlt : o < c.opCount)
    (hready : Ready ⟨c, q⟩ o 2)
    (hok : c.resourceActionCompletion d env o sshRc = .ok c') : Held ⟨c', q⟩ := by
  obtain ⟨c₁, hok, heq⟩ := bind_eq_ok.mp hok
  rw [← Except.ok.inj heq]
  obtain ⟨mid, hmid, hend⟩ := Cape.resourceActionCompleted_ok hok
  obtain ⟨hheld, hready⟩ := h.executed hready hmid
  have hlt : o < mid.opCount := by simpa [hmid.opCount] using hlt
  have hspare : Spare ⟨mid, q⟩ o 1 := by
    have := hready.spare
    unfold Spare at this ⊢
    omega
  have hdropped := hheld.unref hlt hspare
  rcases hend with ⟨-, hc⟩ | ⟨r, -, -, hc⟩ <;> rw [hc]
  · refine hdropped.unref ?_ hready.unref.spare
    simpa [(Cape.Unwinds.peResourceUnref mid o).opCount] using hlt
  · -- the timer is armed before the transport drops its reference
    rw [Cape.timerAdd_unref]
    exact hdropped.arm hready.unref r

end

/-! ## Stopping monitors -/

theorem Held.spare_clearMonitorOp {r : ResourceId} {k : Nat} (hheld : Held l)
    (hmonitor : (l.cape.resources r).monitorOp = some o) (h : l.Spare o k) :
    Spare { l with cape := l.cape.modifyResource r ({ · with monitorOp := none }) } o
      (k + 1) := by
  have hone := hheld.monitors_eq_one hmonitor
  have hzero : monitors
      { l with cape := l.cape.modifyResource r ({ · with monitorOp := none }) } o = 0 := by
    simp [monitors, Cape.modifyResource, (hheld.owner hmonitor).1]
  have htimers : timers
      { l with cape := l.cape.modifyResource r ({ · with monitorOp := none }) } o =
      l.timers o := rfl
  have hcommands : commands
      { l with cape := l.cape.modifyResource r ({ · with monitorOp := none }) } o =
      l.commands o := rfl
  unfold Spare at h ⊢
  exact show _ ≤ (l.cape.ops o).refcount by omega

theorem Held.clearMonitorOp {r : ResourceId} (h : Held l)
    (hmonitor : (l.cape.resources r).monitorOp = some o) (hspare : l.Spare o 0) :
    Held { l with cape :=
      (l.cape.modifyResource r ({ · with monitorOp := none })).peResourceUnref o } := by
  have heases : Eases l
      { l with cape := l.cape.modifyResource r ({ · with monitorOp := none }) } :=
    .of_unwinds (.clearMonitorOp _ r) (fun _ => rfl) fun _ => rfl
  exact (heases.held h).unref (h.owner hmonitor).2 (h.spare_clearMonitorOp hmonitor hspare)

theorem Held.recurringMonitorStop {r : ResourceId} (h : Held l)
    (hmonitor : (l.cape.resources r).monitorOp = some o) (hown : l.cape.OwnTimer r) :
    Held { l with cape := l.cape.recurringMonitorStop o } := by
  obtain ⟨hresource, hlt⟩ := h.owner hmonitor
  have henough := (h.counted o hlt).enough
  simp only [Cape.recurringMonitorStop, hresource]
  split
  case isFalse => exact h.clearMonitorOp hmonitor henough
  case isTrue hrunning =>
    obtain ⟨⟨handle, x⟩, hmem, hhandle⟩ := List.any_eq_true.mp hrunning
    obtain rfl : x = o := hown o hmonitor _ hmem (of_decide_eq_true hhandle)
    obtain rfl : handle = (l.cape.resources r).monitorTimer := of_decide_eq_true hhandle
    have heases : Eases l
        { l with cape := l.cape.timerDel (l.cape.resources r).monitorTimer } :=
      .of_unwinds (.timerDel _ _) (fun _ => rfl) fun _ => rfl
    have hready := h.fired hmem hlt
    have hdropped := (heases.held h).unref hlt hready.spare
    refine hdropped.clearMonitorOp (r := r) ?_ hready.unref.spare
    rw [Cape.peResourceUnref_resources]
    exact hmonitor

theorem Held.stopMonitor {r : ResourceId} (h : Held l) (hown : l.cape.OwnTimer r) :
    Held { l with cape := l.cape.stopMonitor r } := by
  unfold Cape.stopMonitor
  cases hmonitor : (l.cape.resources r).monitorOp with
  | none => exact h
  | some o => exact h.recurringMonitorStop hmonitor hown

theorem Held.clearEntry {oh : OperationHistory} (h : Held l)
    (hown : l.cape.OwnTimer oh.resource) :
    Held { l with cape := l.cape.clearEntry oh } := by
  have hstop : Held ⟨l.cape.stopWaitingMonitor oh.resource, l.actions⟩ := by
    unfold Cape.stopWaitingMonitor
    split
    · exact h.stopMonitor hown
    · exact h
  have heases : Eases ⟨l.cape.stopWaitingMonitor oh.resource, l.actions⟩
      ⟨l.cape.clearEntry oh, l.actions⟩ := .of_resources rfl rfl rfl fun _ => rfl
  exact heases.held hstop

theorem Held.foldl_clearEntry {drop : ResourceId → Bool} {q : CString → List Nat}
    (entries : List OperationHistory) {c : Cape σ} (h : Held ⟨c, q⟩)
    (hown : ∀ oh ∈ entries, drop oh.resource = true → c.OwnTimer oh.resource) :
    Held ⟨entries.foldl
      (fun c oh => if drop oh.resource then c.clearEntry oh else c) c, q⟩ := by
  induction entries generalizing c with
  | nil => exact h
  | cons oh entries ih =>
      rw [List.foldl_cons]
      by_cases hdrop : drop oh.resource
      · rw [if_pos hdrop]
        refine ih (h.clearEntry (hown oh List.mem_cons_self hdrop)) fun x hx hxdrop => ?_
        exact (hown x (List.mem_cons_of_mem oh hx) hxdrop).unwinds (.clearEntry c oh)
      · rw [if_neg hdrop]
        exact ih h fun x hx => hown x (List.mem_cons_of_mem oh hx)

theorem Held.clearHistory (h : Held l) (drop : ResourceId → Bool)
    (hown : ∀ oh ∈ l.cape.history, drop oh.resource = true →
      l.cape.OwnTimer oh.resource) :
    Held { l with cape := l.cape.clearHistory drop } :=
  h.foldl_clearEntry l.cape.history hown

theorem Held.nodeOpHistoryClear {a : CString} (h : Held l)
    (hown : ∀ oh ∈ l.cape.history, oh.resource.assembly = a →
      l.cape.OwnTimer oh.resource) :
    Held { l with cape := l.cape.nodeOpHistoryClear a } := by
  have hclear : Held { l with cape := l.cape.clearHistory fun r => r.assembly = a } :=
    h.clearHistory _ fun oh hoh hdrop => hown oh hoh (of_decide_eq_true hdrop)
  have heases : Eases ⟨l.cape.clearHistory fun r => r.assembly = a, l.actions⟩
      ⟨l.cape.nodeOpHistoryClear a, l.actions⟩ := by
    refine .of_resources rfl rfl rfl fun r => ?_
    simp only [Cape.nodeOpHistoryClear]
    split <;> rfl
  exact heases.held hclear

/-! ## A new operation -/

structure Fresh (l : Ledger σ) (o : Nat) : Prop where
  lt : o < l.cape.opCount
  unmonitored : ∀ r, (l.cape.resources r).monitorOp ≠ some o
  timers : l.timers o = 0
  commands : l.commands o = 0
  refcount : (l.cape.ops o).refcount = 1

theorem Fresh.ready (h : l.Fresh o) : l.Ready o 1 := by
  have hmonitors : l.monitors o = 0 := by
    unfold monitors
    cases (l.cape.ops o).resource with
    | none => rfl
    | some r => simp [h.unmonitored r]
  refine ⟨h.timers, h.commands, ?_, by simp [h.refcount]⟩
  simp [Spare, hmonitors, h.timers, h.commands, h.refcount]

theorem Fresh.congr (h : l.Fresh o) (hopCount : l'.cape.opCount = l.cape.opCount)
    (hmonitorOp : ∀ r, (l'.cape.resources r).monitorOp = none ∨
      (l'.cape.resources r).monitorOp = (l.cape.resources r).monitorOp)
    (htimers : l'.timers o ≤ l.timers o) (hcommands : l'.commands o ≤ l.commands o)
    (hrefcount : (l'.cape.ops o).refcount = (l.cape.ops o).refcount) : l'.Fresh o where
  lt := hopCount ▸ h.lt
  unmonitored r hr := by
    rcases hmonitorOp r with hnone | hsame
    · simp [hnone] at hr
    · exact h.unmonitored r (hsame ▸ hr)
  timers := Nat.le_zero.mp (h.timers ▸ htimers)
  commands := Nat.le_zero.mp (h.commands ▸ hcommands)
  refcount := hrefcount.trans h.refcount

theorem Fresh.ease (h : l.Fresh o) (heases : Eases l l') : l'.Fresh o :=
  h.congr heases.opCount heases.monitorOp (heases.timers o) (heases.commands o)
    (heases.refcount o)

theorem Fresh.unwinds {c : Cape σ} (h : l.Fresh o) (hunwinds : l.cape.Unwinds c)
    (hop : c.ops o = l.cape.ops o) : Fresh { l with cape := c } o :=
  h.congr hunwinds.opCount hunwinds.monitorOp hunwinds.timers.countP_le
    (by simp only [Ledger.commands, hop, le_refl]) (by rw [hop])

theorem Held.create (h : Held l) (haccounted : Accounted l) (graph : Nat) (spec : OpSpec) :
    Held { l with cape := World.execRscAction l.cape graph spec } ∧
      Fresh { l with cape := World.execRscAction l.cape graph spec } l.cape.opCount := by
  have hold : ∀ {x}, x < l.cape.opCount →
      (World.execRscAction l.cape graph spec).ops x = l.cape.ops x := fun hx => by
    simp [World.execRscAction, Function.update_of_ne (Nat.ne_of_lt hx)]
  have hfresh : Fresh { l with cape := World.execRscAction l.cape graph spec }
      l.cape.opCount := by
    constructor
    case lt => exact Nat.lt_succ_self _
    case unmonitored => exact fun r hr => (h.owner hr).2.ne rfl
    case timers =>
      refine List.countP_eq_zero.mpr fun x hx => ?_
      simpa using (haccounted.armed x hx).ne
    case commands =>
      refine List.count_eq_zero.mpr fun hmem => ?_
      exact (haccounted.queued hmem).1.ne rfl
    case refcount => simp [World.execRscAction]
  refine ⟨⟨fun hr => ?_, fun x hx => ?_⟩, hfresh⟩
  · obtain ⟨hresource, hlt⟩ := h.owner hr
    exact ⟨(congrArg _ (hold hlt)).trans hresource, Nat.lt_succ_of_lt hlt⟩
  · rcases Nat.lt_succ_iff_lt_or_eq.mp hx with hlt | rfl
    · refine (h.counted x hlt).of_op (hold hlt) (fun _ => Or.inr rfl) le_rfl ?_
      simp only [Ledger.commands, hold hlt, le_refl]
    · have hready := hfresh.ready
      have hspare := hready.spare
      unfold Spare at hspare
      refine .of_counts le_rfl hready.timers.le hready.commands.le ?_ ?_ ?_ ?_
      · simp [World.execRscAction]
      · omega
      · have := hready.timers
        have := hready.commands
        omega
      · have := hfresh.refcount
        omega

theorem Held.setResource (h : Held l) (hfresh : l.Fresh o) (r : Option ResourceId) :
    Held { l with cape := l.cape.setResource o r } ∧
      Fresh { l with cape := l.cape.setResource o r } o := by
  have hold : ∀ x, x ≠ o → (l.cape.setResource o r).ops x = l.cape.ops x := fun x hx => by
    simp [Cape.setResource, Cape.modifyOp, Function.update_of_ne hx]
  have hop : (l.cape.setResource o r).ops o = { l.cape.ops o with resource := r } := by
    simp [Cape.setResource, Cape.modifyOp]
  have hfresh' : Fresh { l with cape := l.cape.setResource o r } o := by
    constructor
    case lt => exact hfresh.lt
    case unmonitored => exact hfresh.unmonitored
    case timers => exact hfresh.timers
    case commands => simpa only [Ledger.commands, hop] using hfresh.commands
    case refcount => simpa only [hop] using hfresh.refcount
  refine ⟨⟨fun {r' x} hr => ?_, fun x hx => ?_⟩, hfresh'⟩
  · have hne : x ≠ o := by
      rintro rfl
      exact hfresh.unmonitored r' hr
    exact ⟨(congrArg _ (hold x hne)).trans (h.owner hr).1, (h.owner hr).2⟩
  · have hcounted := h.counted x hx
    by_cases hxo : x = o
    · subst hxo
      have hready := hfresh'.ready
      have hspare := hready.spare
      have hone := hfresh'.refcount
      have htimers := hready.timers
      have hcommands := hready.commands
      refine .of_counts le_rfl le_rfl le_rfl ?_ (by omega) ?_ (by omega)
      · simpa only [hop] using hcounted.clean
      · unfold Spare at hspare
        omega
    · refine hcounted.of_op (hold x hxo) (fun _ => Or.inr rfl) le_rfl ?_
      simp only [Ledger.commands, hold x hxo, le_refl]

theorem Held.startMonitor (h : Held l) (hfresh : l.Fresh o) {r : ResourceId}
    (hresource : (l.cape.ops o).resource = some r) :
    Held { l with cape := l.cape.startMonitor r o } ∧
      Ready { l with cape := l.cape.startMonitor r o } o 1 := by
  have hold : ∀ x, x ≠ o → (l.cape.startMonitor r o).ops x = l.cape.ops x := fun x hx => by
    simp [Cape.startMonitor, Cape.setStopped, Cape.modifyResource, Cape.peResourceRef,
      Cape.modifyOp, Function.update_of_ne hx]
  have hop : (l.cape.startMonitor r o).ops o = { l.cape.ops o with refcount := 2 } := by
    simp [Cape.startMonitor, Cape.setStopped, Cape.modifyResource, Cape.peResourceRef,
      Cape.modifyOp, hfresh.refcount]
  have hself : ((l.cape.startMonitor r o).resources r).monitorOp = some o := by
    simp [Cape.startMonitor, Cape.modifyResource]
  have hother : ∀ r', r' ≠ r → ((l.cape.startMonitor r o).resources r').monitorOp =
      (l.cape.resources r').monitorOp := fun r' hr => by
    simp [Cape.startMonitor, Cape.setStopped, Cape.modifyResource, Cape.peResourceRef,
      Cape.modifyOp, Function.update_of_ne hr]
  have hmonitors : monitors { l with cape := l.cape.startMonitor r o } o ≤ 1 := by
    simp [monitors, hop, hresource, hself]
  have htimers : timers { l with cape := l.cape.startMonitor r o } o = 0 := hfresh.timers
  have hcommands : commands { l with cape := l.cape.startMonitor r o } o = 0 := by
    simpa only [Ledger.commands, hop] using hfresh.commands
  refine ⟨⟨fun {r' x} hr => ?_, fun x hx => ?_⟩, htimers, hcommands, ?_, by simp [hop]⟩
  · by_cases hr' : r' = r
    · subst hr'
      obtain rfl : o = x := Option.some.inj (hself.symm.trans hr)
      exact ⟨by simpa only [hop] using hresource, hfresh.lt⟩
    · rw [hother r' hr'] at hr
      have hne : x ≠ o := by
        rintro rfl
        exact hfresh.unmonitored r' hr
      exact ⟨(congrArg _ (hold x hne)).trans (h.owner hr).1, (h.owner hr).2⟩
  · obtain ⟨hsingle, henough, hbound, hclean⟩ := h.counted x hx
    by_cases hxo : x = o
    · subst hxo
      have hcounts := Counted.of_counts hmonitors htimers.le hcommands.le
      simp only [hop] at hcounts
      exact hcounts hclean (by omega) (by omega) (by omega)
    · have hless : monitors { l with cape := l.cape.startMonitor r o } x ≤
          l.monitors x := by
        simp only [monitors, hold x hxo]
        cases (l.cape.ops x).resource with
        | none => exact le_rfl
        | some r' =>
            by_cases hr' : r' = r
            · simp [hr', hself, Ne.symm hxo]
            · simp [hother r' hr']
      have hqueue : commands { l with cape := l.cape.startMonitor r o } x =
          l.commands x := by
        simp only [Ledger.commands, hold x hxo]
      have hcounts := Counted.of_counts (t := l.timers x) hless le_rfl hqueue.le
      simp only [hold x hxo] at hcounts
      exact hcounts hclean hsingle henough hbound
  · unfold Spare
    simp only [hop]
    omega

theorem Held.settle (h : Held l) (hfresh : l.Fresh o) (returnCode : Int) :
    Held { l with cape := l.cape.settle o returnCode } := by
  have heases : Eases l { l with cape := l.cape.peResourceCompleted o returnCode } :=
    .of_resources rfl rfl rfl fun _ => rfl
  exact (heases.held h).unref hfresh.lt (heases.spare hfresh.ready.spare)

section

variable [Stopwatch σ] {d : Deployable} {env : Env} {c : Cape σ} {q : CString → List Nat}

theorem Held.executeCb {state : RecoverState} {queued : Bool} (h : Held l)
    (hfresh : l.Fresh o)
    (hown : (l.cape.ops o).method = .stop ∨ (l.cape.ops o).method = .delete →
      ∀ r ∈ d.resource? (l.cape.ops o).hostname (l.cape.ops o).rname, l.cape.OwnTimer r)
    (hexec : l.cape.Executed d env o state c queued) :
    Held ⟨c, if queued then
        Function.update l.actions (l.cape.ops o).hostname
          (l.actions (l.cape.ops o).hostname ++ [o])
      else l.actions⟩ := by
  have hhost : ∀ {c}, l.cape.Quiet c → (c.ops o).hostname = (l.cape.ops o).hostname :=
    fun hquiet => hquiet.hostname o
  have hset : ∀ r, l.cape.Quiet (l.cape.setResource o r) := .setResource l.cape o
  cases hexec with
  | offline hstate hok =>
      have hdone : Held ⟨_, l.actions⟩ := h.completed hfresh.lt hfresh.ready hok
      split
      · exact (Eases.of_setStopped ⟨_, l.actions⟩ _ true).held hdone
      · exact hdone
  | foreign =>
      obtain ⟨hheld, hfresh⟩ := h.setResource hfresh _
      exact hheld.settle hfresh _
  | @monitored r =>
      obtain ⟨hheld, hfresh⟩ := h.setResource hfresh (some r)
      have heases := Eases.of_setStopped ⟨l.cape.setResource o (some r), l.actions⟩ r false
      exact (heases.held hheld).settle (hfresh.ease heases) _
  | @monitor r =>
      obtain ⟨hheld, hfresh⟩ := h.setResource hfresh (some r)
      obtain ⟨hstarted, hready⟩ := hheld.startMonitor hfresh (r := r)
        (by simp [Cape.setResource, Cape.modifyOp])
      exact hstarted.hand hready (hhost ((hset _).trans (.startMonitor _ _ _)))
  | @probe r =>
      obtain ⟨hheld, hfresh⟩ := h.setResource hfresh (some r)
      exact hheld.hand hfresh.ready (hhost (hset _))
  | start =>
      obtain ⟨hheld, hfresh⟩ := h.setResource hfresh _
      exact hheld.hand hfresh.ready (hhost (hset _))
  | @stop r hmethod hr =>
      obtain ⟨hheld, hfresh⟩ := h.setResource hfresh (some r)
      have hunwinds := Cape.Unwinds.stopMonitor (l.cape.setResource o (some r)) r
      have hstopped := hheld.stopMonitor (hown (Or.inl hmethod) r hr)
      have hfresh := hfresh.unwinds hunwinds (Cape.stopMonitor_ops hfresh.unmonitored r)
      have hhand := hstopped.hand hfresh.ready (hhost ((hset _).trans hunwinds.toQuiet))
      exact (Eases.of_setStopped ⟨_, _⟩ r true).held hhand
  | delete hmethod =>
      obtain ⟨hheld, hfresh⟩ := h.setResource hfresh
        (d.resource? (l.cape.ops o).hostname (l.cape.ops o).rname)
      have hclear := hheld.clearHistory (fun r => some r =
        ((l.cape.setResource o (d.resource? (l.cape.ops o).hostname
          (l.cape.ops o).rname)).ops o).resource) ?_
      · exact hclear.settle (hfresh.unwinds (.clearHistory _ _)
          (Cape.clearHistory_ops hfresh.unmonitored _)) ocfOk
      · intro oh hoh hdrop
        refine hown (Or.inr hmethod) oh.resource ?_
        simpa [Cape.setResource, Cape.modifyOp, eq_comm] using hdrop

end

end Ledger

namespace World

variable {σ : Type} [Stopwatch σ] {d : Deployable} {w : World σ} {e : Event}

/--
Whenever a monitor is stopped while the `monitor_timer` of its resource is running,
the timer is the monitor's own.
-/
def StopsOwnTimer (d : Deployable) (w : World σ) (e : Event) : Prop :=
  (∀ x ∈ w.restarting e, ∀ oh ∈ w.cape.history, oh.resource.assembly = x.1 →
      w.cape.OwnTimer oh.resource) ∧
    match e with
    | .fire (.rsc spec) _ =>
        spec.method = .stop ∨ spec.method = .delete →
          ∀ r ∈ d.resource? spec.hostname spec.rname, w.cape.OwnTimer r
    | _ => True

instance (d : Deployable) (w : World σ) : ∀ e, Decidable (StopsOwnTimer d w e)
  | .fire (.rsc _) _ => inferInstanceAs (Decidable (_ ∧ (_ → _)))
  | .fire .confirmed _ | .job _ _ _ | .timer _ _ _ | .monitorTimer _ _ | .processJob
  | .processNextJob _ | .runGraphReturn _ => inferInstanceAs (Decidable (_ ∧ True))

theorem Change.held {q : CString → List Nat} {c : Cape σ} (h : w.ledger.Held)
    (haccounted : w.ledger.Accounted) (hstops : StopsOwnTimer d w e)
    (hchange : w.Change d e q c) : Ledger.Held ⟨c, q⟩ := by
  cases hchange with
  | idle hkept => exact (Ledger.Eases.of_same hkept.toSameMonitors).held h
  | @flushed e a c htimeout hkept =>
      have hqueue : Ledger.Held ⟨w.cape, Function.update w.actions a []⟩ :=
        (Ledger.Eases.of_queue (List.nil_sublist _)).held h
      exact (Ledger.Eases.of_same hkept.toSameMonitors).held hqueue
  | @restarted e a env hrestart =>
      have hqueue : Ledger.Held ⟨w.cape.scheduleProcessing,
          Function.update w.actions a []⟩ :=
        (Ledger.Eases.of_queue (List.nil_sublist _)).held
          ((Ledger.Eases.of_same
            (Cape.Bookkeeping.scheduleProcessing w.cape).toSameMonitors).held h)
      have heases : Ledger.Eases
          ⟨w.cape.scheduleProcessing.nodeOpHistoryClear a, Function.update w.actions a []⟩
          ⟨(w.cape.scheduleProcessing.nodeOpHistoryClear a).instanceRequests a env,
            Function.update w.actions a []⟩ := .of_resources rfl rfl rfl fun _ => rfl
      exact heases.held (hqueue.nodeOpHistoryClear (hstops.1 (a, env) hrestart))
  | @completed e a env o sshRc rest c houtputs hactions hok =>
      have hmem : o ∈ w.actions a := by simp [hactions]
      obtain ⟨hlt, hhost⟩ := haccounted.queued hmem
      have hqueue : Ledger.Held ⟨w.cape, Function.update w.actions a rest⟩ :=
        (Ledger.Eases.of_queue (l := w.ledger)
          (by simp [ledger, hactions])).held h
      exact hqueue.completion hlt (h.done hlt hhost hactions) hok
  | @monitorOffline handle o env c htimer hok =>
      have hlt : o < w.cape.opCount := haccounted.armed _ htimer
      have hdeleted : Ledger.Held ⟨w.cape.timerDel handle, w.actions⟩ :=
        (Ledger.Eases.of_same (Cape.Bookkeeping.timerDel _ handle).toSameMonitors).held h
      exact hdeleted.completed hlt (h.fired htimer hlt) hok
  | @monitorRequest handle o env htimer =>
      have hlt : o < w.cape.opCount := haccounted.armed _ htimer
      have hdeleted : Ledger.Held ⟨w.cape.timerDel handle, w.actions⟩ :=
        (Ledger.Eases.of_same (Cape.Bookkeeping.timerDel _ handle).toSameMonitors).held h
      exact hdeleted.hand (h.fired htimer hlt) rfl
  | engine hengine => exact (Ledger.Eases.of_same hengine.same.1).held h
  | @fire graph spec env c queued hgraph hexec =>
      obtain ⟨hheld, hfresh⟩ := h.create haccounted graph spec
      have hspec : ((execRscAction w.cape graph spec).ops w.cape.opCount).hostname =
          spec.hostname ∧
          ((execRscAction w.cape graph spec).ops w.cape.opCount).rname = spec.rname ∧
          ((execRscAction w.cape graph spec).ops w.cape.opCount).method = spec.method := by
        simp [execRscAction]
      have hown : ((execRscAction w.cape graph spec).ops w.cape.opCount).method = .stop ∨
          ((execRscAction w.cape graph spec).ops w.cape.opCount).method = .delete →
          ∀ r ∈ d.resource? ((execRscAction w.cape graph spec).ops w.cape.opCount).hostname
            ((execRscAction w.cape graph spec).ops w.cape.opCount).rname,
            (execRscAction w.cape graph spec).OwnTimer r := by
        rw [hspec.1, hspec.2.1, hspec.2.2]
        exact hstops.2
      have hdone := hheld.executeCb hfresh hown hexec
      simp only [ledger, hspec.1] at hdone
      exact hdone

/--
In every run that stops a running `monitor_timer` only together with the operation
it belongs to, no reference is dropped at count zero, and an operation whose count
is zero is held by no resource, no armed timer and no queued command.
-/
theorem refcount_covers_of_stopsOwnTimer {errno : ResourceId → Int}
    {answers : CString → Env} {events : List Event}
    (halong : Along (step d) (StopsOwnTimer d) (load d errno answers : World σ) events)
    (h : Reaches d errno answers events w) (o : Nat) (ho : o < w.cape.opCount) :
    (w.cape.ops o).unrefAtZero = false ∧
      ((w.cape.ops o).refcount = 0 → (∀ r, (w.cape.resources r).monitorOp ≠ some o) ∧
        (∀ x ∈ w.cape.monitorTimers, x.2 ≠ o) ∧ ∀ a, o ∉ w.actions a) := by
  have hinit : (load d errno answers : World σ).ledger.Held := by
    obtain ⟨cloud, hcape⟩ := load_cape (σ := σ) d errno answers
    constructor <;> simp [ledger, hcape, empty]
  obtain ⟨-, haccounted, hheld⟩ := run_invariant (I := Kept Ledger.Held)
    (fun hkept hstops => hkept.step fun hchange =>
      hchange.held hkept.fact hkept.accounted hstops)
    (.load hinit) halong h
  obtain ⟨hsingle, henough, hbound, hclean⟩ := hheld.counted o ho
  refine ⟨hclean, fun hzero => ?_⟩
  have hnone : w.ledger.monitors o = 0 ∧ w.ledger.timers o = 0 ∧
      w.ledger.commands o = 0 := by
    have hledger : (w.ledger.cape.ops o).refcount = 0 := hzero
    unfold Ledger.Spare at henough
    omega
  refine ⟨fun r hr => ?_, fun x hx heq => ?_, fun a ha => ?_⟩
  · have hone := hheld.monitors_eq_one hr
    omega
  · exact List.countP_eq_zero.mp hnone.2.1 x hx (by simpa using heq)
  · have hhost := (haccounted.queued ha).2
    exact List.count_eq_zero.mp hnone.2.2 (hhost ▸ ha)

def stopping : List Event :=
  monitoring ++ [.processNextJob 0, .fire (angus .stop 0 0) workingEnv]

theorem refcount_covers_of_stopsOwnTimer_stopping :
    ∃ w, BarReaches stopping w ∧ (w.cape.ops 1).refcount = 0 ∧
      (w.cape.ops 1).unrefAtZero = false ∧
      (∀ r, (w.cape.resources r).monitorOp ≠ some 1) ∧
      (∀ x ∈ w.cape.monitorTimers, x.2 ≠ 1) ∧ ∀ a, 1 ∉ w.actions a := by
  obtain ⟨w, hreach, hlt, hzero⟩ :
      ∃ w, BarReaches stopping w ∧ 1 < w.cape.opCount ∧ (w.cape.ops 1).refcount = 0 :=
    exists_reaches (by decide +kernel)
  obtain ⟨hclean, hnone⟩ :=
    refcount_covers_of_stopsOwnTimer (by decide +kernel) hreach 1 hlt
  exact ⟨w, hreach, hzero, hclean, hnone hzero⟩

def overlapping : List Event :=
  bringUp ++ [.job bar (.assemblySshExec 0) workingEnv, .processJob, .processNextJob 0,
    .fire (angus .monitor 1000 0) workingEnv, .fire (angus .monitor 2000 0) workingEnv,
    .runGraphReturn .active, .job bar (.assemblySshExec 1) workingEnv,
    .job bar (.assemblySshExec 2) workingEnv, .monitorTimer 1 workingEnv,
    .job bar (.assemblySshExec 3) workingEnv]

/--
The stop finds the first monitor's timer under `monitor_timer` and drops two
references of the second: its count is zero while its own timer stays armed.
-/
theorem stop_releases_armed_monitor :
    ∃ w, BarReaches (overlapping ++
        [.processNextJob 0, .fire (angus .stop 0 0) workingEnv]) w ∧
      (w.cape.ops 1).refcount = 0 ∧ (2, 1) ∈ w.cape.monitorTimers :=
  exists_reaches (by decide +kernel)

end World

end PacemakerCloud
