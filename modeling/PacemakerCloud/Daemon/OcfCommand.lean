import Mathlib.Algebra.BigOperators.Group.List.Basic
import PacemakerCloud.Daemon

/-!
# The command line of an OCF operation

`transport_resource_action` appends the environment of a resource agent to a
buffer on its stack, and prints the buffer, the path of the agent and the method
into one command.  The remote side splits that command at blanks.
-/

namespace PacemakerCloud

open Foundation

namespace World

/-! ## The words of the command -/

def shellMetacharacters : List Char := ['|', '&', ';', '(', ')', '<', '>']

/-- A text that the shell reads as one word. -/
def IsWord (text : CString) : Prop :=
  text ≠ [] ∧ ∀ c ∈ text, isSpace c = false ∧ c ∉ shellMetacharacters

-- The instance for lists is named, as characters could also be run through one by one.
instance (text : CString) : Decidable (IsWord text) :=
  @instDecidableAnd _ _ inferInstance (List.decidableBAll _ text)

structure OcfOfWords (op : PeOperation) (provider : CString) : Prop where
  rclass_eq : op.rclass = "ocf".toList
  rprovider_eq : op.rprovider = some provider
  provider : IsWord provider
  rname : IsWord op.rname
  rtype : IsWord op.rtype
  params : ∀ param ∈ op.params, IsWord param.1 ∧ IsWord param.2

def ocfReskey (param : CString × CString) : CString :=
  "OCF_RESKEY_".toList ++ param.1 ++ '=' :: param.2

/-- The assignments an agent of the provider is to find in its environment. -/
def ocfAssignments (op : PeOperation) (provider : CString) : List CString :=
  ["OCF_RA_VERSION_MAJOR=1".toList, "OCF_RA_VERSION_MINOR=0".toList,
    "OCF_ROOT=".toList ++ ocfRoot,
    "OCF_RESOURCE_INSTANCE=".toList ++ op.rname,
    "OCF_RESOURCE_TYPE=".toList ++ op.rtype,
    "OCF_RESOURCE_PROVIDER=".toList ++ provider] ++
  op.params.map ocfReskey

def ocfAgent (op : PeOperation) (provider : CString) : CString :=
  ocfRoot ++ "/resource.d/".toList ++ provider ++ '/' :: op.rtype

/--
The words are the assignments in some order, as the traversal of the parameter
map may have any, then the agent and the method.
-/
def CarriesEnvironment (op : PeOperation) (provider : CString)
    (command : List CString) : Prop :=
  ∃ assignments, assignments.Perm (ocfAssignments op provider) ∧
    command = assignments ++ [ocfAgent op provider, op.method.text]

/-- What follows `OCF_RA_VERSION_MINOR=0`: nothing separates the appended parts. -/
def joinedAssignments (op : PeOperation) (provider : CString) : CString :=
  "OCF_ROOT=".toList ++ ocfRoot ++
    "OCF_RESOURCE_INSTANCE=".toList ++ op.rname ++
    "OCF_RESOURCE_TYPE=".toList ++ op.rtype ++
    "OCF_RESOURCE_PROVIDER=".toList ++ provider ++
    op.params.flatMap ocfReskey

theorem ocfEnvironment_of_provider {op : PeOperation} {provider : CString}
    (h : op.rprovider = some provider) :
    ocfEnvironment op =
      "OCF_RA_VERSION_MAJOR=1 OCF_RA_VERSION_MINOR=0 OCF_ROOT=".toList ++ ocfRoot ++
        "OCF_RESOURCE_INSTANCE=".toList ++ op.rname ++
        "OCF_RESOURCE_TYPE=".toList ++ op.rtype ++
        ("OCF_RESOURCE_PROVIDER=".toList ++ provider) ++
        op.params.flatMap ocfReskey := by
  unfold ocfEnvironment
  simp only [h]
  congr 1

theorem ocfEnvironment_of_none {op : PeOperation} (h : op.rprovider = none) :
    ocfEnvironment op =
      "OCF_RA_VERSION_MAJOR=1 OCF_RA_VERSION_MINOR=0 OCF_ROOT=".toList ++ ocfRoot ++
        "OCF_RESOURCE_INSTANCE=".toList ++ op.rname ++
        "OCF_RESOURCE_TYPE=".toList ++ op.rtype ++ op.params.flatMap ocfReskey := by
  unfold ocfEnvironment
  simp only [h, List.append_nil]
  congr 1

theorem IsWord.blank_notMem {text : CString} (h : IsWord text) : ' ' ∉ text := by
  intro hmem
  have hspace := (h.2 ' ' hmem).1
  simp [isSpace] at hspace

theorem OcfOfWords.blank_notMem_joined {op : PeOperation} {provider : CString}
    (h : OcfOfWords op provider) : ' ' ∉ joinedAssignments op provider := by
  have hparams : ' ' ∉ op.params.flatMap ocfReskey := by
    intro hmem
    obtain ⟨param, hparam, hmem⟩ := List.mem_flatMap.mp hmem
    have hwords := h.params param hparam
    rcases List.mem_append.mp hmem with hmem | hmem
    · exact List.not_mem_append (by decide +kernel) hwords.1.blank_notMem hmem
    · exact List.not_mem_cons_of_ne_of_not_mem (by decide) hwords.2.blank_notMem hmem
  refine List.not_mem_append (List.not_mem_append (List.not_mem_append
    (List.not_mem_append (List.not_mem_append (List.not_mem_append ?_
      h.rname.blank_notMem) ?_) h.rtype.blank_notMem) ?_) h.provider.blank_notMem) hparams
  · decide +kernel
  · decide +kernel
  · decide +kernel

theorem OcfOfWords.blank_notMem_agent {op : PeOperation} {provider : CString}
    (h : OcfOfWords op provider) : ' ' ∉ ocfAgent op provider := by
  refine List.not_mem_append (List.not_mem_append ?_ h.provider.blank_notMem) ?_
  · decide +kernel
  · exact List.not_mem_cons_of_ne_of_not_mem (by decide) h.rtype.blank_notMem

theorem OcfOfWords.resourceCommand_eq {op : PeOperation} {provider : CString}
    (h : OcfOfWords op provider) :
    resourceCommand op =
      "OCF_RA_VERSION_MAJOR=1".toList ++ ' ' ::
        ("OCF_RA_VERSION_MINOR=0".toList ++ ' ' ::
          (joinedAssignments op provider ++ ' ' ::
            (ocfAgent op provider ++ ' ' :: (op.method.text ++ " )".toList)))) := by
  have hclass : op.rclass ≠ "lsb".toList := by
    rw [h.rclass_eq]
    decide +kernel
  have hversion : "OCF_RA_VERSION_MAJOR=1 OCF_RA_VERSION_MINOR=0 OCF_ROOT=".toList =
      "OCF_RA_VERSION_MAJOR=1".toList ++ ' ' ::
        ("OCF_RA_VERSION_MINOR=0".toList ++ ' ' :: "OCF_ROOT=".toList) := by
    decide +kernel
  unfold resourceCommand joinedAssignments ocfAgent
  rw [if_neg hclass, ocfEnvironment_of_provider h.rprovider_eq, h.rprovider_eq, hversion]
  simp only [Option.getD_some, List.append_assoc, List.cons_append]

theorem OcfOfWords.words_resourceCommand {op : PeOperation} {provider : CString}
    (h : OcfOfWords op provider) :
    words (resourceCommand op) =
      "OCF_RA_VERSION_MAJOR=1".toList :: "OCF_RA_VERSION_MINOR=0".toList ::
        joinedAssignments op provider :: ocfAgent op provider ::
          words (op.method.text ++ " )".toList) := by
  have hjoined : joinedAssignments op provider ≠ [] := List.cons_ne_nil _ _
  have hagent : ocfAgent op provider ≠ [] := List.cons_ne_nil _ _
  rw [h.resourceCommand_eq, words_append_blank (by decide +kernel) (by decide +kernel),
    words_append_blank (by decide +kernel) (by decide +kernel),
    words_append_blank hjoined h.blank_notMem_joined,
    words_append_blank hagent h.blank_notMem_agent]

theorem joinedAssignments_notMem (op : PeOperation) (provider : CString) :
    joinedAssignments op provider ∉ ocfAssignments op provider := by
  have hjoined : (joinedAssignments op provider).take 22 =
      "OCF_ROOT=/usr/lib/ocfO".toList := rfl
  have hshort : ∀ other : CString, other.take 6 ≠ "OCF_RO".toList →
      joinedAssignments op provider ≠ other := by
    rintro _ hother rfl
    exact hother rfl
  have hresource : ∀ other : CString, other.take 6 = "OCF_RE".toList →
      joinedAssignments op provider ≠ other := by
    intro other hother
    exact hshort other (hother ▸ by decide +kernel)
  intro hmem
  simp only [ocfAssignments, List.mem_append, List.mem_cons, List.not_mem_nil,
    or_false, List.mem_map] at hmem
  rcases hmem with (heq | heq | heq | heq | heq | heq) | ⟨param, -, heq⟩
  · exact hshort _ (by decide +kernel) heq
  · exact hshort _ (by decide +kernel) heq
  · rw [heq] at hjoined
    exact absurd hjoined (by decide +kernel)
  · exact hresource _ rfl heq
  · exact hresource _ rfl heq
  · exact hresource _ rfl heq
  · exact hresource _ rfl heq.symm

/--
The command never carries the environment it was built from: the assignments
from `OCF_ROOT` on reach the remote side as one word.
-/
theorem environment_never_carried {op : PeOperation} {provider : CString}
    (h : OcfOfWords op provider) :
    ¬ CarriesEnvironment op provider (words (resourceCommand op)) := by
  rintro ⟨assignments, hperm, hwords⟩
  rw [h.words_resourceCommand] at hwords
  have hlen : 6 ≤ assignments.length := by
    rw [hperm.length_eq]
    simp [ocfAssignments]
  -- the third word stands among the assignments
  have hthird : assignments[2]? = some (joinedAssignments op provider) := by
    have := congrArg (·[2]?) hwords
    rw [List.getElem?_append_left (by omega)] at this
    exact this.symm
  exact joinedAssignments_notMem op provider
    (hperm.mem_iff.mp (List.mem_of_getElem? hthird))

def apacheStart : PeOperation :=
  { hostname := "web".toList
    method := .start
    rname := "rsc_web_httpd".toList
    rclass := "ocf".toList
    rprovider := some "heartbeat".toList
    rtype := "apache".toList
    params := [("port".toList, "80".toList)]
    opDigest := 0
    timesExecuted := 0
    interval := 0
    targetOutcome := 0
    graph := 0
    resource := none
    graphId := 0
    actionId := 0
    refcount := 1
    executions := 0
    unrefAtZero := false }

theorem apacheStart_ofWords : OcfOfWords apacheStart "heartbeat".toList :=
  ⟨rfl, rfl, by decide +kernel, by decide +kernel, by decide +kernel, by decide +kernel⟩

theorem environment_never_carried_apache :
    ¬ CarriesEnvironment apacheStart "heartbeat".toList
      (words (resourceCommand apacheStart)) :=
  environment_never_carried apacheStart_ofWords

theorem apache_environment_joined :
    OcfOfWords apacheStart "heartbeat".toList ∧
      words (resourceCommand apacheStart) =
        ["OCF_RA_VERSION_MAJOR=1".toList, "OCF_RA_VERSION_MINOR=0".toList,
          "OCF_ROOT=/usr/lib/ocfOCF_RESOURCE_INSTANCE=rsc_web_httpd".toList ++
            "OCF_RESOURCE_TYPE=apacheOCF_RESOURCE_PROVIDER=heartbeat".toList ++
            "OCF_RESKEY_port=80".toList,
          "/usr/lib/ocf/resource.d/heartbeat/apache".toList, "start".toList,
          ")".toList] ∧
      ¬ CarriesEnvironment apacheStart "heartbeat".toList
        (words (resourceCommand apacheStart)) := by
  have hlast : words (apacheStart.method.text ++ " )".toList) =
      ["start".toList, ")".toList] := by decide +kernel
  have hwords := apacheStart_ofWords.words_resourceCommand
  rw [hlast] at hwords
  refine ⟨apacheStart_ofWords, ?_, ?_⟩
  · have hjoined : joinedAssignments apacheStart "heartbeat".toList =
        "OCF_ROOT=/usr/lib/ocfOCF_RESOURCE_INSTANCE=rsc_web_httpd".toList ++
          "OCF_RESOURCE_TYPE=apacheOCF_RESOURCE_PROVIDER=heartbeat".toList ++
          "OCF_RESKEY_port=80".toList := by decide +kernel
    have hagent : ocfAgent apacheStart "heartbeat".toList =
        "/usr/lib/ocf/resource.d/heartbeat/apache".toList := by decide +kernel
    rw [hwords, hjoined, hagent]
  · rintro ⟨assignments, hperm, hcommand⟩
    have hlength := congrArg List.length (hwords.symm.trans hcommand)
    simp only [List.length_append, List.length_cons, List.length_nil, hperm.length_eq,
      ocfAssignments, List.length_map] at hlength
    exact absurd hlength (by decide)

/-! ## The buffers -/

def resourceEnvironmentMax : Nat := 2048

/-- The bytes written into `envs`, the terminator included. -/
def environmentBytes (op : PeOperation) : Nat := (ocfEnvironment op).length + 1

def providerBytes : Option CString → Nat
  | some provider => 22 + provider.length
  | none => 0

def paramsBytes (params : List (CString × CString)) : Nat :=
  (params.map fun param => 12 + param.1.length + param.2.length).sum

theorem length_ocfReskey (param : CString × CString) :
    (ocfReskey param).length = 12 + param.1.length + param.2.length := by
  have hreskey : "OCF_RESKEY_".toList.length = 11 := by decide +kernel
  unfold ocfReskey
  rw [List.length_append, List.length_append, List.length_cons, hreskey]
  omega

theorem environmentBytes_eq (op : PeOperation) :
    environmentBytes op = 108 + op.rname.length + op.rtype.length +
      providerBytes op.rprovider + paramsBytes op.params := by
  have hversion : "OCF_RA_VERSION_MAJOR=1 OCF_RA_VERSION_MINOR=0 OCF_ROOT=".toList.length =
      55 := by decide +kernel
  have hroot : ocfRoot.length = 12 := by decide +kernel
  have hinstance : "OCF_RESOURCE_INSTANCE=".toList.length = 22 := by decide +kernel
  have htype : "OCF_RESOURCE_TYPE=".toList.length = 18 := by decide +kernel
  have hprovider : "OCF_RESOURCE_PROVIDER=".toList.length = 22 := by decide +kernel
  have hparams : (op.params.flatMap ocfReskey).length = paramsBytes op.params := by
    rw [List.length_flatMap, paramsBytes]
    simp only [length_ocfReskey]
  unfold environmentBytes
  cases h : op.rprovider with
  | none =>
      rw [ocfEnvironment_of_none h]
      simp only [List.length_append, hversion, hroot, hinstance, htype, hparams,
        providerBytes]
      omega
  | some provider =>
      rw [ocfEnvironment_of_provider h]
      simp only [List.length_append, hversion, hroot, hinstance, htype, hprovider, hparams,
        providerBytes]
      omega

theorem length_resourceCommand {op : PeOperation} (h : op.rclass = "ocf".toList) :
    (resourceCommand op).length = environmentBytes op + 28 +
      (op.rprovider.getD "(null)".toList).length + op.rtype.length +
        op.method.text.length := by
  have hclass : op.rclass ≠ "lsb".toList := by
    rw [h]
    decide +kernel
  have hroot : ocfRoot.length = 12 := by decide +kernel
  have hagents : "/resource.d/".toList.length = 12 := by decide +kernel
  have hclose : " )".toList.length = 2 := by decide +kernel
  unfold resourceCommand environmentBytes
  rw [if_neg hclass]
  simp only [List.length_append, List.length_cons, hroot, hagents, hclose]
  omega

/-- Nothing is written past `envs`, and the command is not cut. -/
structure FitsBuffers (op : PeOperation) : Prop where
  environment : environmentBytes op ≤ resourceEnvironmentMax
  command : snprintf commandMax (resourceCommand op) = resourceCommand op

/--
The buffers are large enough exactly for short operations.  The second bound
follows from the first one for the three methods that the daemon sends.
-/
theorem fits_buffers_iff_short {op : PeOperation} (hclass : op.rclass = "ocf".toList)
    {assembly : CString} {s : Service} {info : ResourceInfo}
    (hinfo : info ∈ resourceCreate assembly s)
    (ha : assembly.length ≤ assemblyNameMax) (hs : s.name.length ≤ resourceNameMax)
    (hname : op.rname = info.name) :
    FitsBuffers op ↔
      assembly.length + s.name.length + op.rtype.length + providerBytes op.rprovider +
          paramsBytes op.params ≤ 1935 ∧
        assembly.length + s.name.length + 2 * op.rtype.length +
            providerBytes op.rprovider + paramsBytes op.params +
            (op.rprovider.getD "(null)".toList).length + op.method.text.length ≤ 31858 := by
  have hbytes := environmentBytes_eq op
  rw [hname, length_name_of_resourceCreate hinfo ha hs] at hbytes
  have hcommand := snprintf_eq_self_iff (by decide : 0 < commandMax) (resourceCommand op)
  rw [length_resourceCommand hclass, hbytes, commandMax] at hcommand
  constructor
  · rintro ⟨henvironment, huncut⟩
    rw [hbytes, resourceEnvironmentMax] at henvironment
    have := hcommand.mp huncut
    omega
  · rintro ⟨hshort, hmethod⟩
    refine ⟨?_, hcommand.mpr ?_⟩
    · rw [hbytes, resourceEnvironmentMax]
      omega
    · omega

def httpdService : Service :=
  { name := "httpd".toList
    type := "apache".toList
    rclass := "ocf".toList
    rprovider := some "heartbeat".toList
    escalationFailures := none
    escalationPeriod := none
    configureExecutable := false }

theorem httpdService_created :
    ∃ info ∈ resourceCreate "web".toList httpdService, apacheStart.rname = info.name := by
  decide +kernel

theorem fits_buffers_iff_short_apache : FitsBuffers apacheStart := by
  obtain ⟨info, hinfo, hname⟩ := httpdService_created
  exact (fits_buffers_iff_short rfl hinfo (by decide +kernel) (by decide +kernel)
    hname).mpr (by decide +kernel)

/-- A parameter of 1900 bytes. -/
theorem long_parameter_overflows :
    let op : PeOperation :=
      { apacheStart with params := [("options".toList, List.replicate 1900 'x')] }
    (∃ info ∈ resourceCreate "web".toList httpdService, op.rname = info.name) ∧
      ¬ FitsBuffers op := by
  refine ⟨httpdService_created, ?_⟩
  rintro ⟨henvironment, -⟩
  rw [environmentBytes_eq] at henvironment
  simp only [paramsBytes, List.map_cons, List.map_nil, List.sum_cons, List.sum_nil,
    List.length_replicate] at henvironment
  exact absurd henvironment (by decide +kernel)

end World

end PacemakerCloud
