import Mathlib.Data.List.Forall2
import Mathlib.Data.List.Nodup
import Mathlib.Data.List.Pairwise
import Mathlib.Data.List.Perm.Basic

/-!
# Loops and queues

Facts about lists as the models use them: a loop over a list that changes a state,
a family of queues of which one is replaced, the entries that a filter drops, and a
map as the list of its values.
-/

namespace PacemakerCloud.Foundation

variable {α β : Type*}

theorem foldl_rel {R : β → β → Prop} (hrefl : ∀ b, R b b)
    (htrans : ∀ {b₁ b₂ b₃}, R b₁ b₂ → R b₂ b₃ → R b₁ b₃) {f : β → α → β}
    (hf : ∀ b x, R b (f b x)) (l : List α) (b : β) : R b (l.foldl f b) := by
  induction l generalizing b with
  | nil => exact hrefl b
  | cons x l ih => exact htrans (hf b x) (ih (f b x))

theorem foldl_last {p : α → Bool} (l : List α) (last : Option α) :
    l.foldl (fun last x => if p x then some x else last) last = (l.filter p).getLast?.or last := by
  induction l generalizing last with
  | nil => rfl
  | cons x l ih =>
      rw [List.foldl_cons, ih]
      by_cases hx : p x = true
      · rw [List.filter_cons_of_pos hx, if_pos hx, List.getLast?_cons]
        cases (l.filter p).getLast? <;> rfl
      · rw [List.filter_cons_of_neg hx, if_neg hx]

theorem map_eq_self_iff {f : α → α} {l : List α} : l.map f = l ↔ ∀ x ∈ l, f x = x := by
  simpa using List.map_inj_left (l := l) (f := f) (g := id)

theorem head?_flatMap_filter {p : α → Bool} {g : α → List β} {before after : List α} {x : α}
    {y : β} (hbefore : ∀ n ∈ before, p n = true → g n = []) (hx : p x = true)
    (hy : (g x).head? = some y) :
    (((before ++ x :: after).filter p).flatMap g).head? = some y := by
  have hnone : (before.filter p).flatMap g = [] := by
    rw [List.flatMap_eq_nil_iff]
    intro n hn
    exact hbefore n (List.mem_of_mem_filter hn) (List.of_mem_filter hn)
  rw [List.filter_append, List.flatMap_append, hnone, List.filter_cons_of_pos hx]
  simp [hy]

theorem mem_update [DecidableEq α] {q : α → List β} {a b : α} {xs : List β} {x : β} :
    x ∈ Function.update q a xs b ↔ b = a ∧ x ∈ xs ∨ b ≠ a ∧ x ∈ q b := by
  by_cases hb : b = a
  · simp [hb]
  · simp [hb]

theorem update_eq_some [DecidableEq α] {f : α → Option β} {a b : α} {x : Option β} {y : β} :
    Function.update f a x b = some y ↔ b = a ∧ x = some y ∨ b ≠ a ∧ f b = some y := by
  by_cases hb : b = a
  · simp [hb]
  · simp [hb]

theorem update_subset [DecidableEq α] {q : α → List β} {a : α} {xs : List β}
    (h : xs ⊆ q a) (b : α) : Function.update q a xs b ⊆ q b := by
  intro x hx
  rcases mem_update.mp hx with ⟨rfl, hxs⟩ | ⟨-, hq⟩
  · exact h hxs
  · exact hq

theorem mem_update_append [DecidableEq α] {q : α → List β} {a b : α} {x y : β}
    (h : x ∈ Function.update q a (q a ++ [y]) b) : x ∈ q b ∨ x = y := by
  rcases mem_update.mp h with ⟨rfl, hx⟩ | ⟨-, hx⟩
  · simpa using hx
  · exact Or.inl hx

theorem countP_filter_lt {p keep : α → Bool} {l : List α} {x : α} (hmem : x ∈ l)
    (hp : p x = true) (hkeep : keep x = false) : (l.filter keep).countP p < l.countP p := by
  have hsplit := List.countP_eq_countP_filter_add l p keep
  have hpos : 0 < (l.filter fun y => !keep y).countP p :=
    List.countP_pos_iff.mpr ⟨x, List.mem_filter.mpr ⟨hmem, by simp [hkeep]⟩, hp⟩
  omega

theorem find?_map_of_forall {p : α → Bool} {g : α → α} {l : List α}
    (h : ∀ x ∈ l, p (g x) = p x) : (l.map g).find? p = (l.find? p).map g := by
  induction l with
  | nil => rfl
  | cons x l ih =>
      have hrest := ih fun y hy => h y (.tail _ hy)
      rw [List.map_cons, List.find?_cons, List.find?_cons, h x (.head _), hrest]
      cases p x <;> rfl

/-! ## Blocks and parallel lists -/

section

variable {γ δ : Type*} {f : α → List β} {l : List α}

theorem filter_flatMap_of_forall {p : β → Bool} {q : α → Bool}
    (h : ∀ x ∈ l, ∀ y ∈ f x, p y = q x) :
    (l.flatMap f).filter p = (l.filter q).flatMap f := by
  induction l with
  | nil => rfl
  | cons x l ih =>
      rw [List.flatMap_cons, List.filter_append, ih fun x' hx' => h x' (.tail _ hx')]
      cases hq : q x with
      | true =>
          rw [List.filter_cons_of_pos hq, List.flatMap_cons, List.filter_eq_self.mpr]
          exact fun y hy => (h x (.head _) y hy).trans hq
      | false =>
          rw [List.filter_cons_of_neg (by simp [hq]), List.filter_eq_nil_iff.mpr,
            List.nil_append]
          intro y hy
          simp [h x (.head _) y hy, hq]

theorem filter_key_eq [DecidableEq β] {key : α → β} (h : (l.map key).Nodup) {x : α}
    (hx : x ∈ l) : l.filter (fun y => key y = key x) = [x] := by
  induction l with
  | nil => cases hx
  | cons first rest ih =>
      obtain ⟨hnew, hrest⟩ := List.nodup_cons.mp h
      rcases List.mem_cons.mp hx with rfl | hx
      · have hnone : rest.filter (fun y => key y = key x) = [] := by
          refine List.filter_eq_nil_iff.mpr fun y hy heq => hnew ?_
          exact of_decide_eq_true heq ▸ List.mem_map_of_mem hy
        simp [hnone]
      · have hne : key first ≠ key x := fun heq => hnew (heq ▸ List.mem_map_of_mem hx)
        rw [List.filter_cons_of_neg (by simpa using hne), ih hrest hx]

theorem head?_of_length_le_one (h : l.length ≤ 1) {x : α} (hx : x ∈ l) : l.head? = some x := by
  match l, h, hx with
  | [y], _, hx => exact congrArg some (List.mem_singleton.mp hx).symm

theorem findIdx?_key [DecidableEq β] {key : α → β} (h : (l.map key).Nodup) {x : α}
    (hx : x ∈ l) : ∃ i, l.findIdx? (fun y => key y = key x) = some i ∧ l[i]? = some x := by
  induction l with
  | nil => cases hx
  | cons first rest ih =>
      obtain ⟨hnew, hrest⟩ := List.nodup_cons.mp h
      rcases List.mem_cons.mp hx with rfl | hx
      · exact ⟨0, by simp [List.findIdx?_cons], rfl⟩
      · obtain ⟨i, hfind, hi⟩ := ih hrest hx
        have hne : key first ≠ key x := fun heq => hnew (heq ▸ List.mem_map_of_mem hx)
        exact ⟨i + 1, by simp [List.findIdx?_cons, hne, hfind], hi⟩

theorem modify_map_of_key {key : α → γ} {F F' : α → β} {G : β → β} (h : (l.map key).Nodup)
    {i : Nat} {x : α} (hi : l[i]? = some x) (hat : G (F x) = F' x)
    (hoff : ∀ y ∈ l, key y ≠ key x → F y = F' y) : (l.map F).modify i G = l.map F' := by
  induction l generalizing i with
  | nil => cases hi
  | cons first rest ih =>
      obtain ⟨hnew, hrest⟩ := List.nodup_cons.mp h
      cases i with
      | zero =>
          obtain rfl := Option.some.inj hi
          have hsame : rest.map F = rest.map F' := by
            refine List.map_congr_left fun y hy => hoff y (.tail _ hy) fun heq => hnew ?_
            exact heq ▸ List.mem_map_of_mem hy
          simp [hat, hsame]
      | succ i =>
          have hx : x ∈ rest := List.mem_of_getElem? hi
          have hne : key first ≠ key x := fun heq => hnew (heq ▸ List.mem_map_of_mem hx)
          rw [List.map_cons, List.modify_succ_cons, List.map_cons, hoff first (.head _) hne,
            ih hrest hi fun y hy => hoff y (.tail _ hy)]

theorem modify_append_left {i : Nat} (hi : i < l.length) (G : α → α) (l' : List α) :
    (l ++ l').modify i G = l.modify i G ++ l' := by
  induction l generalizing i with
  | nil => cases hi
  | cons first rest ih =>
      cases i with
      | zero => rfl
      | succ i =>
          rw [List.cons_append, List.modify_succ_cons, List.modify_succ_cons,
            ih (Nat.lt_of_succ_lt_succ hi), List.cons_append]

theorem eq_of_nodup_flatMap {g : β → γ} (h : ((l.flatMap f).map g).Nodup) {x y : α}
    (hx : x ∈ l) (hy : y ∈ l) {b c : β} (hb : b ∈ f x) (hc : c ∈ f y) (heq : g b = g c) :
    x = y := by
  by_contra hne
  rw [List.map_flatMap, List.nodup_flatMap] at h
  have hsymm : Std.Symm (Function.onFun List.Disjoint fun x => (f x).map g) :=
    ⟨fun _ _ hdisjoint _ hb hc => hdisjoint hc hb⟩
  have hdisjoint := h.2.forall hx hy hne
  exact hdisjoint (List.mem_map_of_mem hb) (heq ▸ List.mem_map_of_mem hc)

theorem nodup_flatMap_iff (hl : l.Nodup) (hf : ∀ x ∈ l, (f x).Nodup) :
    (l.flatMap f).Nodup ↔ ∀ x ∈ l, ∀ y ∈ l, x ≠ y → ∀ b ∈ f x, b ∉ f y := by
  constructor
  · intro h x hx y hy hne b hb hc
    rw [← List.map_id (l.flatMap f)] at h
    exact hne (eq_of_nodup_flatMap h hx hy hb hc rfl)
  · intro h
    refine List.nodup_flatMap.mpr ⟨hf, hl.pairwise_of_forall_ne fun x hx y hy hne => ?_⟩
    exact fun b hb hc => h x hx y hy hne b hb hc

/-- A tag that tells the blocks apart leaves only the values of each block to compare. -/
theorem nodup_flatMap_of_tags {tag : α → γ} {tagOf : β → γ} (htags : (l.map tag).Nodup)
    (htag : ∀ x ∈ l, ∀ b ∈ f x, tagOf b = tag x) :
    (l.flatMap f).Nodup ↔ ∀ x ∈ l, (f x).Nodup := by
  rw [List.nodup_flatMap]
  refine and_iff_left_of_imp fun _ => ?_
  refine (List.pairwise_map.mp htags).imp_of_mem fun {x y} hx hy hne b hb hc => ?_
  exact hne ((htag x hx b hb).symm.trans (htag y hy b hc))

theorem flatMap_parts_perm (l : List α) (parts : List γ) (f : γ → α → List β) :
    (l.flatMap fun x => parts.flatMap fun part => f part x).Perm
      (parts.flatMap fun part => l.flatMap (f part)) := by
  induction parts with
  | nil => simp
  | cons part parts ih =>
      simp only [List.flatMap_cons]
      exact (List.flatMap_append_perm l _ _).symm.trans (ih.append_left _)

theorem foldlM_flatMap {step : δ → β → Option δ} (l : List α) (f : α → List β) (init : δ) :
    (l.flatMap f).foldlM step init =
      l.foldlM (fun state x => (f x).foldlM step state) init := by
  induction l generalizing init with
  | nil => rfl
  | cons x l ih =>
      rw [List.flatMap_cons, List.foldlM_append, List.foldlM_cons]
      exact bind_congr fun state => ih state

theorem mapM_of_forall {f : α → Option γ} {g : α → γ} (h : ∀ x ∈ l, f x = some (g x)) :
    l.mapM f = some (l.map g) := by
  induction l with
  | nil => rfl
  | cons x l ih =>
      simp [List.mapM_cons, h x (.head _), ih fun y hy => h y (.tail _ hy)]

theorem forall₂_of_mapM {f : α → Option γ} {l' : List γ} (h : l.mapM f = some l') :
    List.Forall₂ (fun x y => f x = some y) l l' := by
  induction l generalizing l' with
  | nil =>
      cases h
      exact .nil
  | cons x l ih =>
      simp only [List.mapM_cons, Option.pure_def, Option.bind_eq_bind,
        Option.bind_eq_some_iff, Option.some.injEq] at h
      obtain ⟨y, hy, ys, hys, rfl⟩ := h
      exact .cons hy (ih hys)

theorem mapM_isSome {f : α → Option γ} :
    (l.mapM f).isSome ↔ ∀ x ∈ l, (f x).isSome := by
  induction l with
  | nil => simp
  | cons x l ih =>
      cases hx : f x <;> cases hl : l.mapM f <;> simp_all

theorem exists_of_forall₂ {R : α → γ → Prop} {l' : List γ} (h : List.Forall₂ R l l') {x : α}
    (hx : x ∈ l) : ∃ y ∈ l', R x y := by
  induction h with
  | nil => cases hx
  | cons hxy _ ih =>
      rcases List.mem_cons.mp hx with rfl | hx
      · exact ⟨_, List.mem_cons_self, hxy⟩
      · obtain ⟨y, hy, hR⟩ := ih hx
        exact ⟨y, List.mem_cons_of_mem _ hy, hR⟩

theorem map_eq_of_forall₂ {R : α → γ → Prop} {g : α → δ} {g' : γ → δ} {l' : List γ}
    (h : List.Forall₂ R l l') (hg : ∀ x ∈ l, ∀ y, R x y → g x = g' y) :
    l.map g = l'.map g' := by
  induction h with
  | nil => rfl
  | cons hxy _ ih =>
      rw [List.map_cons, List.map_cons, hg _ (.head _) _ hxy,
        ih fun x hx => hg x (.tail _ hx)]

theorem map_perm_of_mapM {ι : Type*} {f : α → Option γ} {l' : List γ} (h : l.mapM f = some l')
    {m : List ι} {e : ι → α} (hperm : l.Perm (m.map e)) {g : γ → δ} {k : ι → δ}
    (hk : ∀ i ∈ m, ∀ y, f (e i) = some y → g y = k i) : (l'.map g).Perm (m.map k) := by
  have hmap : l.map f = l'.map some := map_eq_of_forall₂ (forall₂_of_mapM h) fun _ _ _ hy => hy
  have hresults : (l'.map some).Perm (m.map fun i => f (e i)) := by
    rw [← hmap, ← Function.comp_def f e, ← List.map_map]
    exact hperm.map f
  have hsome : (m.map fun i => (f (e i)).map g) = (m.map k).map some := by
    rw [List.map_map]
    refine List.map_congr_left fun i hi => ?_
    obtain ⟨y, -, hy⟩ := List.mem_map.mp (hresults.mem_iff.mpr (List.mem_map_of_mem hi))
    rw [← hy, Option.map_some, hk i hi y hy.symm]
    rfl
  refine (List.map_perm_map_iff fun _ _ => Option.some.inj).mp ?_
  rw [← hsome]
  simpa [Function.comp_def] using hresults.map (Option.map g)

theorem perm_flatMap_of_forall₂ {R : α → γ → Prop} {g : α → List δ} {g' : γ → List δ}
    {l' : List γ} (h : List.Forall₂ R l l')
    (hg : ∀ x ∈ l, ∀ y, R x y → (g x).Perm (g' y)) : (l.flatMap g).Perm (l'.flatMap g') := by
  induction h with
  | nil => exact .refl _
  | cons hxy _ ih =>
      rw [List.flatMap_cons, List.flatMap_cons]
      exact (hg _ (.head _) _ hxy).append (ih fun x hx => hg x (.tail _ hx))

end

/-! ## Maps -/

section

variable {κ : Type*} [DecidableEq κ] {key : β → κ} {map : List β} {x y : β} {k : κ}

def mapPut (key : β → κ) : List β → β → List β
  | [], x => [x]
  | first :: rest, x =>
      if key first = key x then x :: rest else first :: mapPut key rest x

theorem mem_mapPut (h : y ∈ mapPut key map x) : y = x ∨ y ∈ map := by
  induction map with
  | nil => simpa [mapPut] using h
  | cons first rest ih =>
      simp only [mapPut] at h
      split at h
      · rcases List.mem_cons.mp h with h | h
        · exact Or.inl h
        · exact Or.inr (List.mem_cons_of_mem _ h)
      · rcases List.mem_cons.mp h with h | h
        · exact Or.inr (h ▸ List.mem_cons_self)
        · exact (ih h).imp_right (List.mem_cons_of_mem _)

theorem find?_mapPut (map : List β) (x : β) (k : κ) :
    (mapPut key map x).find? (fun y => key y = k) =
      if key x = k then some x else map.find? fun y => key y = k := by
  induction map with
  | nil => by_cases hx : key x = k <;> simp [mapPut, hx]
  | cons first rest ih =>
      simp only [mapPut]
      by_cases hfirst : key first = key x
      · by_cases hx : key x = k <;> simp [hfirst, hx]
      · rw [if_neg hfirst]
        by_cases hk : key first = k
        · have hx : key x ≠ k := fun hx => hfirst (hk.trans hx.symm)
          simp [hk, hx]
        · simp [hk, ih]

theorem find?_filter_key (keep : κ → Bool) (map : List β) (k : κ) :
    (map.filter fun y => keep (key y)).find? (fun y => key y = k) =
      if keep k then map.find? fun y => key y = k else none := by
  induction map with
  | nil => simp
  | cons first rest ih =>
      by_cases hk : key first = k
      · subst hk
        by_cases hkeep : keep (key first)
        · simp [hkeep]
        · simpa [hkeep] using ih
      · by_cases hkeep : keep (key first)
        · simpa [hkeep, hk] using ih
        · simpa [hkeep, hk] using ih

theorem filter_mapPut {p : β → Bool} (hx : p x = false)
    (hkey : ∀ y ∈ map, key y = key x → p y = false) :
    (mapPut key map x).filter p = map.filter p := by
  induction map with
  | nil => simp [mapPut, hx]
  | cons first rest ih =>
      rw [List.forall_mem_cons] at hkey
      simp only [mapPut]
      split
      case isTrue heq => simp [hx, hkey.1 heq]
      case isFalse => rw [List.filter_cons, List.filter_cons, ih hkey.2]

theorem mem_foldl_mapPut {values : List β} (h : y ∈ values.foldl (mapPut key) map) :
    y ∈ map ∨ y ∈ values := by
  induction values generalizing map with
  | nil => exact Or.inl h
  | cons x values ih =>
      rcases ih h with hput | hrest
      · rcases mem_mapPut hput with rfl | hmap
        · exact Or.inr List.mem_cons_self
        · exact Or.inl hmap
      · exact Or.inr (List.mem_cons_of_mem _ hrest)

theorem mem_keys_mapPut (h : k = key x ∨ k ∈ map.map key) :
    k ∈ (mapPut key map x).map key := by
  induction map with
  | nil => simpa [mapPut] using h
  | cons first rest ih =>
      simp only [mapPut]
      split
      case isTrue heq =>
        rcases h with h | h
        · simp [h]
        · simpa [heq] using h
      case isFalse =>
        rw [List.map_cons, List.mem_cons]
        rcases h with h | h
        · exact Or.inr (ih (Or.inl h))
        · exact (List.mem_cons.mp h).imp_right fun h => ih (Or.inr h)

theorem mem_keys_foldl_mapPut {values : List β}
    (h : k ∈ values.map key ∨ k ∈ map.map key) :
    k ∈ (values.foldl (mapPut key) map).map key := by
  induction values generalizing map with
  | nil => simpa using h
  | cons x values ih =>
      refine ih ?_
      rcases h with h | h
      · rcases List.mem_cons.mp h with h | h
        · exact Or.inr (mem_keys_mapPut (Or.inl h))
        · exact Or.inl h
      · exact Or.inr (mem_keys_mapPut (Or.inr h))

theorem keys_mapPut_subset (h : k ∈ (mapPut key map x).map key) :
    k = key x ∨ k ∈ map.map key := by
  obtain ⟨y, hy, rfl⟩ := List.mem_map.mp h
  rcases mem_mapPut hy with rfl | hmap
  · exact Or.inl rfl
  · exact Or.inr (List.mem_map_of_mem hmap)

theorem nodup_keys_mapPut (h : (map.map key).Nodup) : ((mapPut key map x).map key).Nodup := by
  induction map with
  | nil => simp [mapPut]
  | cons first rest ih =>
      obtain ⟨hnew, hrest⟩ := List.nodup_cons.mp h
      simp only [mapPut]
      split
      case isTrue heq => simpa [heq] using h
      case isFalse hne =>
        refine List.nodup_cons.mpr ⟨fun hmem => ?_, ih hrest⟩
        exact (keys_mapPut_subset hmem).elim hne hnew

theorem nodup_keys_foldl_mapPut {values : List β} (h : (map.map key).Nodup) :
    ((values.foldl (mapPut key) map).map key).Nodup := by
  induction values generalizing map with
  | nil => exact h
  | cons x values ih => exact ih (nodup_keys_mapPut h)

theorem mapPut_of_new (h : key x ∉ map.map key) : mapPut key map x = map ++ [x] := by
  induction map with
  | nil => rfl
  | cons first rest ih =>
      simp only [List.map_cons, List.mem_cons, not_or] at h
      rw [mapPut, if_neg (Ne.symm h.1), ih h.2, List.cons_append]

theorem foldl_mapPut_of_nodup {values : List β} (h : ((map ++ values).map key).Nodup) :
    values.foldl (mapPut key) map = map ++ values := by
  induction values generalizing map with
  | nil => simp
  | cons x values ih =>
      have hnew : key x ∉ map.map key := by
        rw [List.map_append, List.nodup_append] at h
        exact fun hmem => h.2.2 _ hmem _ (by simp) rfl
      rw [List.foldl_cons, mapPut_of_new hnew, ih (by simpa using h)]
      simp

theorem foldlM_mapPut_of_nodup {l : List α} {step : List β → α → Option (List β)} {g : α → β}
    {P : β → Prop} (hg : ∀ x ∈ l, P (g x))
    (hstep : ∀ map, (∀ y ∈ map, P y) → ∀ x ∈ l, step map x = some (mapPut key map (g x)))
    (hnodup : ((l.map g).map key).Nodup) : l.foldlM step [] = some (l.map g) := by
  have hputs : ∀ map, (∀ y ∈ map, P y) →
      l.foldlM step map = some ((l.map g).foldl (mapPut key) map) := by
    clear hnodup
    induction l with
    | nil => exact fun _ _ => rfl
    | cons x l ih =>
        intro map hmap
        rw [List.forall_mem_cons] at hg
        have hput : ∀ y ∈ mapPut key map (g x), P y := fun y hy =>
          (mem_mapPut hy).elim (fun heq => heq ▸ hg.1) (hmap y)
        rw [List.foldlM_cons, hstep map hmap x (.head _), Option.bind_eq_bind, Option.bind_some,
          ih hg.2 (fun map hmap y hy => hstep map hmap y (.tail _ hy)) _ hput]
        rfl
  rw [hputs [] (by simp), foldl_mapPut_of_nodup (by simpa using hnodup), List.nil_append]

end

end PacemakerCloud.Foundation
