import PacemakerCloud.Daemon.History

/-!
# Digests of the operation history

An entry copies the digest of the operation it is created for.  If an operation with another
digest saves its result under the same key, the entry takes over that operation's string,
which is freed with the operation.
-/

namespace PacemakerCloud

open Foundation

namespace Cape

variable {σ : Type} {c c' : Cape σ}

/-- The digest of every entry can be read, and no operation holds it. -/
def DigestsOwned (c : Cape σ) : Prop :=
  ∀ oh ∈ c.history, (c.digests oh.opDigest).live = true ∧
    ∀ o ∈ List.range c.opCount, (c.ops o).opDigest ≠ oh.opDigest

instance (c : Cape σ) : Decidable c.DigestsOwned :=
  inferInstanceAs (Decidable (∀ oh ∈ _, _))

/-- An operation saves its result under a new key, or with the digest that is there. -/
def KeepsDigest (c : Cape σ) : HistoryEvent σ → Prop
  | .save _ _ o _ => ∀ oh ∈ c.findEntry (opHistoryKey (c.ops o)),
      (c.digests oh.opDigest).text = (c.digests (c.ops o).opDigest).text
  | _ => True

instance (c : Cape σ) : DecidablePred c.KeepsDigest
  | .save _ _ _ _ => inferInstanceAs (Decidable (∀ oh ∈ c.findEntry _, _))
  | .exec _ _ | .unref _ | .clear _ | .delete _ | .other _ => .isTrue trivial

structure Apart (c : Cape σ) : Prop where
  allocated : c.Allocated
  cells : ∀ oh ∈ c.history, ∀ oh' ∈ c.history, oh.opDigest = oh'.opDigest →
    oh.rscId = oh'.rscId
  live : ∀ oh ∈ c.history, (c.digests oh.opDigest).live = true
  ops : ∀ oh ∈ c.history, ∀ o, (c.ops o).opDigest ≠ oh.opDigest

theorem Fresh.apart (h : c.Fresh) : c.Apart where
  allocated := h.allocated
  cells := by simp [h.history]
  live := by simp [h.history]
  ops := by simp [h.history]

namespace Apart

theorem digestsOwned (h : c.Apart) : c.DigestsOwned :=
  fun oh hoh => ⟨h.live oh hoh, fun o _ => h.ops oh hoh o⟩

theorem read (h : c.Apart) {oh : OperationHistory} (hoh : oh ∈ c.history) :
    (c.digests oh.opDigest).read = some (c.digests oh.opDigest).text :=
  if_pos (h.live oh hoh)

theorem elsewhere (h : c.Apart) (he : Elsewhere c c') : c'.Apart where
  allocated := h.allocated.elsewhere he
  cells := by
    rw [he.history]
    exact h.cells
  live oh hoh := by
    rw [he.history] at hoh
    rw [he.digests _ (h.allocated.entries oh hoh)]
    exact h.live oh hoh
  ops oh hoh o := by
    rw [he.history] at hoh
    by_cases hnew : c.opCount ≤ o ∧ o < c'.opCount
    · have hcreated := (he.created o hnew.1 hnew.2).1
      have hentry := h.allocated.entries oh hoh
      omega
    · rw [he.opDigest o (by omega)]
      exact h.ops oh hoh o

theorem clears (h : c.Apart) {drop : OperationHistory → Bool}
    (hc : Clears c c' (c.history.filter drop)) : c'.Apart := by
  have hkept : ∀ oh ∈ c'.history, oh ∈ c.history ∧
      ∀ x ∈ c.history.filter drop, oh.rscId ≠ x.rscId := by
    intro oh hoh
    rw [hc.history] at hoh
    obtain ⟨hmem, hne⟩ := List.mem_filter.mp hoh
    exact ⟨hmem, of_decide_eq_true hne⟩
  exact
    { allocated := h.allocated.clears hc
      cells := fun oh hoh oh' hoh' => h.cells oh (hkept oh hoh).1 oh' (hkept oh' hoh').1
      live := fun oh hoh => by
        obtain ⟨hmem, hne⟩ := hkept oh hoh
        rw [hc.live oh.opDigest (h.ops oh hmem) ?_]
        · exact h.live oh hmem
        · intro x hx heq
          exact hne x hx (h.cells x (List.mem_of_mem_filter hx) oh hmem heq).symm
      ops := fun oh hoh o => by
        rw [hc.opDigest]
        exact h.ops oh (hkept oh hoh).1 o }

theorem copied (h : c.Apart) {now o : Nat} {r : ResourceId} {ec : Int} {oh : OperationHistory}
    (hs : Saves c c' now r o ec oh) (ho : o < c.opCount) (hnew : oh.opDigest = c.digestCount)
    (hdigests : c'.digests = Function.update c.digests c.digestCount
      ⟨(c.digests (c.ops o).opDigest).text, true⟩) : c'.Apart := by
  have hcases : ∀ x ∈ c'.history, x = oh ∨ x ∈ c.history ∧ x.opDigest < c.digestCount := by
    intro x hx
    rw [hs.history] at hx
    exact (mem_mapPut hx).imp_right fun hold => ⟨hold, h.allocated.entries x hold⟩
  refine ⟨h.allocated.saves hs ho, ?_, ?_, ?_⟩
  · intro x hx y hy heq
    rcases hcases x hx with rfl | ⟨hx, hltx⟩ <;> rcases hcases y hy with rfl | ⟨hy, hlty⟩
    · rfl
    · omega
    · omega
    · exact h.cells x hx y hy heq
  · intro x hx
    rw [hdigests]
    rcases hcases x hx with rfl | ⟨hx, hlt⟩
    · rw [hnew, Function.update_self]
    · rw [Function.update_of_ne (Nat.ne_of_lt hlt)]
      exact h.live x hx
  · intro x hx p
    rw [hs.ops]
    rcases hcases x hx with rfl | ⟨hx, -⟩
    · have hlt := h.allocated.ops.lt ho p
      omega
    · exact h.ops x hx p

theorem kept (h : c.Apart) {now o : Nat} {r : ResourceId} {ec : Int}
    {oh old : OperationHistory} (hs : Saves c c' now r o ec oh) (ho : o < c.opCount)
    (hfind : c.findEntry (opHistoryKey (c.ops o)) = some old) (hsame : oh.opDigest = old.opDigest)
    (hdigests : c'.digests = c.digests) : c'.Apart := by
  have hcases : ∀ x ∈ c'.history,
      ∃ y ∈ c.history, x.opDigest = y.opDigest ∧ x.rscId = y.rscId := by
    intro x hx
    rw [hs.history] at hx
    rcases mem_mapPut hx with rfl | hold
    · exact ⟨old, mem_of_findEntry hfind, hsame, hs.rscId.trans (rscId_of_findEntry hfind).symm⟩
    · exact ⟨x, hold, rfl, rfl⟩
  refine ⟨h.allocated.saves hs ho, ?_, ?_, ?_⟩
  · intro x hx y hy heq
    obtain ⟨x', hx', hcell, hkey⟩ := hcases x hx
    obtain ⟨y', hy', hcell', hkey'⟩ := hcases y hy
    rw [hkey, hkey']
    exact h.cells x' hx' y' hy' (hcell.symm.trans (heq.trans hcell'))
  · intro x hx
    obtain ⟨x', hx', hcell, -⟩ := hcases x hx
    rw [hdigests, hcell]
    exact h.live x' hx'
  · intro x hx p
    obtain ⟨x', hx', hcell, -⟩ := hcases x hx
    rw [hs.ops, hcell]
    exact h.ops x' hx' p

theorem saves (h : c.Apart) {now o : Nat} {r : ResourceId} {ec : Int} {oh : OperationHistory}
    (hs : Saves c c' now r o ec oh) (ho : o < c.opCount)
    (hkeeps : ∀ old ∈ c.findEntry (opHistoryKey (c.ops o)),
      (c.digests old.opDigest).text = (c.digests (c.ops o).opDigest).text) : c'.Apart := by
  cases hs.digest with
  | copied _ opDigest _ digests => exact h.copied hs ho opDigest digests
  | kept old find _ opDigest _ digests => exact h.kept hs ho find opDigest digests
  | shared old find differs => exact absurd (hkeeps old find) differs

theorem unref (h : c.Apart) (hc : Clears c c' []) : c'.Apart := by
  have hnone : c.history.filter (fun _ => false) = [] := by simp
  exact h.clears (hnone ▸ hc)

theorem step {e : HistoryEvent σ} (h : c.Apart) (hkeeps : c.Possible e ∧ c.KeepsDigest e)
    (hstep : historyStep c e = .ok c') : c'.Apart := by
  obtain ⟨hpossible, hkeeps⟩ := hkeeps
  cases e with
  | exec graph spec =>
      cases hstep
      exact h.elsewhere (.execRscAction c graph spec)
  | save now r o ec =>
      cases hstep
      obtain ⟨oh, hs⟩ := exists_saves c now r o ec
      exact h.saves hs hpossible hkeeps
  | unref o =>
      cases hstep
      exact h.unref (.peResourceUnref c o)
  | clear a =>
      cases hstep
      exact h.clears (.nodeOpHistoryClear c a)
  | delete o =>
      cases hstep
      exact h.clears (.opHistoryDelete c o)
  | other next =>
      cases hstep
      exact h.elsewhere hpossible

end Apart

/-- As long as no digest changes under its key, the entries own their digests. -/
theorem digests_owned_of_keepsDigest {events : List (HistoryEvent σ)} (hfresh : c.Fresh)
    (hkeeps : Along historyStep (fun c e => c.Possible e ∧ c.KeepsDigest e) c events)
    (hrun : run historyStep c events = .ok c') : c'.DigestsOwned :=
  (run_invariant Apart.step hfresh.apart hkeeps hrun).digestsOwned

def probe (o : Nat) (digest : String) : List (HistoryEvent Ring) :=
  [.exec 0 { World.angusOn World.bar .monitor 0 7 with opDigest := digest.toList },
    .save 1000000 ⟨World.bar, "rsc_bar_angus".toList⟩ o 7]

/-- Two operations with one digest; both are released, and the entry keeps its copy. -/
theorem digests_owned_of_keepsDigest_probes :
    ∃ c, run historyStep barCape (probe 0 "d" ++ probe 1 "d" ++ [.unref 0, .unref 1]) =
        .ok c ∧ c.history.length = 1 ∧ c.DigestsOwned := by
  obtain ⟨c, hrun, hlength⟩ : ∃ c, run historyStep barCape
      (probe 0 "d" ++ probe 1 "d" ++ [.unref 0, .unref 1]) = .ok c ∧ c.history.length = 1 :=
    ⟨_, rfl, by decide +kernel⟩
  refine ⟨c, hrun, hlength, digests_owned_of_keepsDigest barCape_fresh ?_ hrun⟩
  exact ⟨⟨trivial, trivial⟩, ⟨show 0 < _ by decide +kernel, by decide +kernel⟩,
    ⟨trivial, trivial⟩, ⟨show 1 < _ by decide +kernel, by decide +kernel⟩,
    ⟨trivial, trivial⟩, ⟨trivial, trivial⟩, trivial⟩

/-- The second operation has another digest, and the entry keeps the freed string of it. -/
theorem digest_dangles :
    ∃ c, run historyStep barCape (probe 0 "d" ++ probe 1 "e" ++ [.unref 1]) = .ok c ∧
      ∃ oh ∈ c.history, (c.digests oh.opDigest).live = false ∧
        (c.ops 1).opDigest = oh.opDigest := by
  refine ⟨_, rfl, ?_⟩
  decide +kernel

end Cape

end PacemakerCloud
