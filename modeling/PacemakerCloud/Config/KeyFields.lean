import Mathlib.Data.Set.Insert
import PacemakerCloud.Config.Names

/-!
# What a key of the operation history identifies

A key that is not cut gives back the resource, the method and the interval it was made of.
The longest key of a resource is that of a monitor operation whose interval is printed with
a sign and ten digits; a name that leaves no room for it has two operations with one key.
-/

namespace PacemakerCloud

open Foundation

def builtNames (services : Set (CString × Service)) : Set CString :=
  { name | ∃ x ∈ services, ∃ info ∈ resourceCreate x.1 x.2, info.name = name }

def engineMethods : List Method := [.monitor, .start, .stop]

structure OperatesOn (names : Set CString) (op : PeOperation) : Prop where
  rname : op.rname ∈ names
  method : op.method ∈ engineMethods
  interval : op.interval < 2 ^ 32

/-- Two operations have one key only if they agree in all that the key is made of. -/
def KeysUnambiguous (names : Set CString) : Prop :=
  ∀ op op', OperatesOn names op → OperatesOn names op' →
    (Cape.opHistoryKey op = Cape.opHistoryKey op' ↔
      op.rname = op'.rname ∧ op.method = op'.method ∧ op.interval = op'.interval)

theorem OperatesOn.operationOn {names : Set CString} {name : CString} {method : Method}
    {interval : Nat} (hname : name ∈ names) (hmethod : method ∈ engineMethods)
    (hinterval : interval < 2 ^ 32) : OperatesOn names (operationOn name method interval) :=
  ⟨hname, hmethod, hinterval⟩

theorem logged_of_engineMethods {method : Method} (h : method ∈ engineMethods) :
    method.Logged := by
  simp only [engineMethods, List.mem_cons, List.not_mem_nil, or_false] at h
  rcases h with rfl | rfl | rfl
  · exact Or.inl rfl
  · exact Or.inr (Or.inl rfl)
  · exact Or.inr (Or.inr (Or.inl rfl))

theorem length_text_of_engineMethods {method : Method} (h : method ∈ engineMethods) :
    method.text.length ≤ 7 := by
  revert method
  decide +kernel

theorem text_inj_of_engineMethods {method method' : Method} (h : method ∈ engineMethods)
    (h' : method' ∈ engineMethods) (htext : method.text = method'.text) : method = method' := by
  have hall : ∀ method ∈ engineMethods, ∀ method' ∈ engineMethods,
      method.text = method'.text → method = method' := by
    decide +kernel
  exact hall method h method' h' htext

/-! ## Keys that are not cut -/

def fieldsMax : Nat := 20

theorem length_keyText_le {name : CString} {method : Method} (h : method ∈ engineMethods)
    (interval : Nat) : (keyText name method interval).length ≤ name.length + fieldsMax := by
  have hmethod := length_text_of_engineMethods h
  have hinterval := length_printInt_toInt32 interval
  rw [keyText, List.length_append, List.length_append, List.length_cons, List.length_cons,
    fieldsMax]
  omega

theorem keyText_inj {name name' : CString} {method method' : Method} {interval interval' : Nat}
    (h : method ∈ engineMethods) (h' : method' ∈ engineMethods) (hinterval : interval < 2 ^ 32)
    (hinterval' : interval' < 2 ^ 32)
    (hkey : keyText name method interval = keyText name' method' interval') :
    name = name' ∧ method = method' ∧ interval = interval' := by
  -- neither the interval nor the method has the separator, so the key is split from its end
  have hsep : ∀ value : Int, '_' ∉ printInt value := fun value =>
    not_mem_printInt (by decide) (by decide)
  obtain ⟨hrest, hprint⟩ := (append_separator_inj (hsep _) (hsep _)).mp hkey
  obtain ⟨hname, htext⟩ := (append_separator_inj (logged_of_engineMethods h).not_mem_text
    (logged_of_engineMethods h').not_mem_text).mp hrest
  exact ⟨hname, text_inj_of_engineMethods h h' htext,
    (toInt32_inj hinterval hinterval').mp (printInt_inj.mp hprint)⟩

theorem keysUnambiguous_of_short {names : Set CString}
    (h : ∀ name ∈ names, name.length + fieldsMax ≤ keyMax) : KeysUnambiguous names := by
  have huncut : ∀ op, OperatesOn names op →
      Cape.opHistoryKey op = keyText op.rname op.method op.interval := by
    intro op hop
    rw [opHistoryKey_eq, List.take_of_length_le]
    exact (length_keyText_le hop.method _).trans (h _ hop.rname)
  intro op op' hop hop'
  rw [huncut op hop, huncut op' hop']
  constructor
  · exact keyText_inj hop.method hop'.method hop.interval hop'.interval
  · rintro ⟨hrname, hmethod, hinterval⟩
    rw [hrname, hmethod, hinterval]

/-! ## Keys that are cut -/

def longInterval : Nat := 2 ^ 31

def cutInterval : Nat := 2 ^ 32 - 214748364

theorem keyText_longInterval (name : CString) :
    keyText name .monitor longInterval = keyText name .monitor cutInterval ++ ['8'] := by
  have hprint : printInt (toInt32 longInterval) = printInt (toInt32 cutInterval) ++ ['8'] := by
    decide +kernel
  rw [keyText, hprint]
  simp [keyText]

theorem keys_shared_of_long {name : CString} (h : keyMax < name.length + fieldsMax) :
    Cape.opHistoryKey (operationOn name .monitor longInterval) =
      Cape.opHistoryKey (operationOn name .monitor cutInterval) := by
  have hlength : (keyText name .monitor cutInterval).length = name.length + 19 := by
    have hfields : (Method.monitor.text ++ '_' :: printInt (toInt32 cutInterval)).length = 18 := by
      decide +kernel
    simp only [keyText, List.length_append, List.length_cons] at hfields ⊢
    omega
  rw [opHistoryKey_eq, opHistoryKey_eq]
  simp only [operationOn, keyText_longInterval]
  rw [List.take_append_of_le_length]
  rw [fieldsMax] at h
  omega

theorem short_of_keysUnambiguous {names : Set CString} (h : KeysUnambiguous names) {name : CString}
    (hname : name ∈ names) : name.length + fieldsMax ≤ keyMax := by
  by_contra hlong
  have hsame := (h _ _ (.operationOn hname (by decide) (by decide))
    (.operationOn hname (by decide) (by decide))).mp (keys_shared_of_long (by omega))
  have hne : longInterval ≠ cutInterval := by decide
  exact hne hsame.2.2

/-! ## The names of resources -/

variable {services : Set (CString × Service)} {x : CString × Service}

theorem exists_mem_builtNames (hx : x ∈ services) (ha : x.1.length ≤ assemblyNameMax)
    (hs : x.2.name.length ≤ resourceNameMax) :
    ∃ name ∈ builtNames services, name.length = x.1.length + x.2.name.length + 5 := by
  obtain ⟨info, hinfo⟩ : ∃ info, info ∈ resourceCreate x.1 x.2 := by
    unfold resourceCreate
    split <;> exact ⟨_, List.mem_cons_self⟩
  exact ⟨info.name, ⟨x, hx, info, hinfo, rfl⟩, length_name_of_resourceCreate hinfo ha hs⟩

/-- The bound is that of the longest key, with the parts of a name that are always there. -/
theorem keysUnambiguous_iff
    (hfits : ∀ x ∈ services,
      x.1.length ≤ assemblyNameMax ∧ x.2.name.length ≤ resourceNameMax) :
    KeysUnambiguous (builtNames services) ↔
      ∀ x ∈ services, x.1.length + x.2.name.length ≤ 1036 := by
  have hmax : keyMax = 1061 := by decide
  constructor
  · intro h x hx
    obtain ⟨name, hname, hlength⟩ := exists_mem_builtNames hx (hfits x hx).1 (hfits x hx).2
    have hshort := short_of_keysUnambiguous h hname
    rw [hlength, fieldsMax, hmax] at hshort
    omega
  · intro h
    refine keysUnambiguous_of_short ?_
    rintro name ⟨x, hx, info, hinfo, rfl⟩
    have hsum := h x hx
    rw [length_name_of_resourceCreate hinfo (hfits x hx).1 (hfits x hx).2, fieldsMax, hmax]
    omega

def scriptService (name : CString) : Service :=
  ⟨name, "httpd".toList, "lsb".toList, none, none, none, false⟩

def webServices : Set (CString × Service) := {("web".toList, scriptService "httpd".toList)}

theorem keysUnambiguous_iff_web :
    (∀ x ∈ webServices, x.1.length ≤ assemblyNameMax ∧ x.2.name.length ≤ resourceNameMax) ∧
      KeysUnambiguous (builtNames webServices) := by
  have hfits : ∀ x ∈ webServices,
      x.1.length ≤ assemblyNameMax ∧ x.2.name.length ≤ resourceNameMax := by
    rintro x rfl
    decide
  refine ⟨hfits, (keysUnambiguous_iff hfits).mpr ?_⟩
  rintro x rfl
  decide

def longestService : CString × Service :=
  (List.replicate assemblyNameMax 'a', scriptService (List.replicate resourceNameMax 's'))

theorem monitor_and_start_share_key :
    longestService.1.length ≤ assemblyNameMax ∧
      longestService.2.name.length ≤ resourceNameMax ∧
      (∃ name ∈ builtNames {longestService},
        Cape.opHistoryKey (operationOn name .monitor 10) =
          Cape.opHistoryKey (operationOn name .start 0)) ∧
      ¬KeysUnambiguous (builtNames {longestService}) := by
  have hassembly : longestService.1.length = assemblyNameMax := List.length_replicate
  have hservice : longestService.2.name.length = resourceNameMax := List.length_replicate
  obtain ⟨name, hname, hlength⟩ := exists_mem_builtNames (Set.mem_singleton longestService)
    hassembly.le hservice.le
  have hlong : keyMax ≤ name.length + 1 := by
    rw [hlength, hassembly, hservice]
    decide
  have hkeys : Cape.opHistoryKey (operationOn name .monitor 10) =
      Cape.opHistoryKey (operationOn name .start 0) := by
    rw [opHistoryKey_eq, opHistoryKey_eq]
    exact (take_keyText hlong).trans (take_keyText hlong).symm
  refine ⟨hassembly.le, hservice.le, ⟨name, hname, hkeys⟩, fun h => ?_⟩
  have hsame := (h _ _ (.operationOn hname (by decide) (by decide))
    (.operationOn hname (by decide) (by decide))).mp hkeys
  cases hsame.2.1

end PacemakerCloud
