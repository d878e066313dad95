import PacemakerCloud.Pcloudsh.Database

/-!
# The shell

`pcloudsh` keeps the assemblies and the deployables in two databases.  A line names a command
and its options; the command changes the databases through `AssemblyFactory` and
`DeployableFactory`.  What a command finds on the host besides them (images, templates,
services) is an input of the line.

Nothing catches an exception.  A command that raises one ends the process, and a later line is
read by a shell that has loaded the files.
-/

namespace PacemakerCloud

open Foundation

inductive Infrastructure where
  | libvirt
  | aeolus
  | openstack
  | ovirt
  deriving DecidableEq, Repr

structure Modules where
  openstack : Bool
  libvirt : Bool
  deriving DecidableEq, Repr

def Modules.haveMod (modules : Modules) : Infrastructure → Bool
  | .libvirt => modules.libvirt
  | .openstack => modules.openstack
  | .aeolus | .ovirt => false

inductive CloneFrom where
  | imageExists
  | cloned (uuid : CString)
  | raised
  deriving DecidableEq, Repr

inductive ResourceChange where
  | refused
  | saved
  | raised
  deriving DecidableEq, Repr

/--
What a command finds on the host: whether the template and the JEOS are readable, and what comes
of the calls that leave the databases alone.  One that does not succeed raises an exception.
-/
structure Host where
  tdl : Bool
  jeosXml : Bool
  cloneFrom : CloneFrom
  cleanXml : Bool
  delete : Bool
  register : Bool
  cpe : Bool
  create : Option Bool
  resources : ResourceChange
  deriving DecidableEq, Repr

/-! ## Assemblies -/

structure AssemblyAttrs where
  uuid : CString
  jeosName : CString
  image : CString
  infrastructure : Option Infrastructure
  username : Option CString
  deployment : Option CString
  escalationFailures : Option CString
  escalationPeriod : Option CString
  deriving DecidableEq, Repr

/-- `Assembly.save`: an attribute that is not set is not written. -/
def AssemblyAttrs.write : Option AssemblyAttrs → AssemblyAttrs → AssemblyAttrs
  | none, attrs => attrs
  | some old, attrs =>
      { attrs with
        infrastructure := attrs.infrastructure.or old.infrastructure
        username := attrs.username.or old.username
        deployment := attrs.deployment.or old.deployment
        escalationFailures := attrs.escalationFailures.or old.escalationFailures
        escalationPeriod := attrs.escalationPeriod.or old.escalationPeriod }

instance : DbRecord AssemblyAttrs AssemblyAttrs := ⟨AssemblyAttrs.write⟩

abbrev AssemblyFactory := DbFactory AssemblyAttrs AssemblyAttrs

def assembly (node : Option (DbNode AssemblyAttrs)) (name : CString) :
    DbObject AssemblyAttrs :=
  let infinity := "INFINITY".toList
  match node with
  | some node =>
      ⟨some node.id, node.name,
        { node.body with
          escalationFailures := some (node.body.escalationFailures.getD infinity)
          escalationPeriod := some (node.body.escalationPeriod.getD infinity) }⟩
  | none =>
      ⟨none, name, "".toList, "".toList,
        "/var/lib/libvirt/images/".toList ++ name ++ ".qcow2".toList,
        none, none, none, some infinity, some infinity⟩

namespace AssemblyFactory

def createInstance (modules : Modules) (node : Option (DbNode AssemblyAttrs)) (name : CString) :
    Option Infrastructure → Option (DbObject AssemblyAttrs)
  | none => some (assembly node name)
  | some infrastructure =>
      if modules.haveMod infrastructure then
        let i := assembly node name
        some { i with attrs := { i.attrs with infrastructure := some infrastructure } }
      else none

def load (modules : Modules) (file : List (DbNode AssemblyAttrs)) (nodeCount : Nat) :
    AssemblyFactory :=
  DbFactory.load file nodeCount fun node =>
    createInstance modules (some node) node.name
      (some (node.body.infrastructure.getD .libvirt))

def get (f : AssemblyFactory) (name : CString) : AssemblyFactory :=
  if f.existsName name then f else f.put name (some (assembly (f.find name) name))

def cloneFrom (f : AssemblyFactory) (name source : CString) (host : Host) :
    Except AssemblyFactory (AssemblyFactory × Bool) :=
  match f.lookup name, f.lookup source with
  | some (some _), some (some original) =>
      match host.cloneFrom with
      | .imageExists => .ok (f, false)
      | .cloned uuid => do
          let f ← f.modify name fun attrs =>
            { attrs with uuid := uuid, jeosName := original.attrs.jeosName }
          let f ← f.saveInstance name
          .ok (f, true)
      | .raised => .error f
  | _, _ => .error f

/-- The end of `create` and `clone`: the XML of the machine is cleaned and the assembly saved. -/
def finish (f : AssemblyFactory) (name : CString) (host : Host) :
    Except AssemblyFactory AssemblyFactory :=
  if host.cleanXml then f.saveInstance name else .error f

def clone (f : AssemblyFactory) (source dest : CString) (host : Host) :
    Except AssemblyFactory AssemblyFactory :=
  let f := get (get f source) dest
  match f.lookup source with
  | some (some original) =>
      if original.attrs.uuid = [] then .ok f
      else do
        -- what `clone_from` returns is not looked at
        let (f, _) ← cloneFrom f dest source host
        finish f dest host
  | some none | none => .error f

def jeosOf (source : CString) : CString := source ++ "-jeos".toList

def create (f : AssemblyFactory) (name source : CString) (host : Host) :
    Except AssemblyFactory AssemblyFactory :=
  let f := get f name
  if host.tdl then do
    let f := get f (jeosOf source)
    let f ← f.modify (jeosOf source) fun attrs => { attrs with jeosName := source }
    if host.jeosXml then
      let (f, cloned) ← cloneFrom f name (jeosOf source) host
      if cloned then finish f name host else f.deleteInstance name
    else .ok f
  else .ok f

def register (modules : Modules) (f : AssemblyFactory) (name : CString)
    (infrastructure : Infrastructure) (depName : CString) (username : Option CString)
    (host : Host) : Except AssemblyFactory AssemblyFactory :=
  if modules.haveMod infrastructure then do
    let f ← f.saveInstance name
    match createInstance modules (f.find name) name (some infrastructure) with
    | none => .error f
    | some a =>
        let attrs := { a.attrs with username := username, deployment := some depName }
        let f ← (f.put name (some { a with attrs := attrs })).saveInstance name
        if infrastructure = .openstack ∧ host.register = false then .error f else .ok f
  else .ok f

def delete (f : AssemblyFactory) (name : CString) (host : Host) :
    Except AssemblyFactory AssemblyFactory :=
  let f := get f name
  match f.lookup name with
  | some (some _) => if host.delete then f.deleteInstance name else .error f
  | some none | none => .error f

def escalationAssemblySet (f : AssemblyFactory) (name failures period : CString) :
    Except AssemblyFactory AssemblyFactory :=
  if f.existsName name then do
    let f ← f.modify name fun attrs =>
      { attrs with escalationFailures := some failures, escalationPeriod := some period }
    f.saveInstance name
  else .ok f

def resourceFactorySetup (f : AssemblyFactory) (name : CString) (a : DbObject AssemblyAttrs) :
    Except AssemblyFactory AssemblyFactory :=
  if a.xmlNode = none then f.saveInstance name else .ok f

def resourceCommand (f : AssemblyFactory) (name : CString) (change : ResourceChange) :
    Except AssemblyFactory AssemblyFactory :=
  match f.lookup name with
  | none => .ok f
  | some none => .error f
  | some (some a) => do
      let f ← resourceFactorySetup f name a
      match change with
      | .refused => .ok f
      | .saved => f.saveInstance name
      | .raised => .error f

end AssemblyFactory

/-! ## Deployables -/

structure DeployableAttrs where
  infrastructure : Infrastructure
  username : Option CString
  monitor : Option CString
  deriving DecidableEq, Repr

structure DeployableElement where
  infrastructure : Option Infrastructure
  username : Option CString
  monitor : Option CString
  assemblies : List CString
  deriving DecidableEq, Repr

def DeployableAttrs.write (old : Option DeployableElement) (attrs : DeployableAttrs) :
    DeployableElement :=
  ⟨some attrs.infrastructure, attrs.username, attrs.monitor,
    (old.map DeployableElement.assemblies).getD []⟩

instance : DbRecord DeployableAttrs DeployableElement := ⟨DeployableAttrs.write⟩

abbrev DeployableFactory := DbFactory DeployableAttrs DeployableElement

namespace DeployableFactory

def createInstance (modules : Modules) (node : Option (DbNode DeployableElement))
    (name : CString) (infrastructure : Infrastructure) (username : CString) :
    Option (DbObject DeployableAttrs) :=
  if modules.haveMod infrastructure then
    match node with
    | some node =>
        some ⟨some node.id, node.name, infrastructure, node.body.username,
          some (node.body.monitor.getD "active".toList)⟩
    | none => some ⟨none, name, infrastructure, some username, none⟩
  else none

def load (modules : Modules) (file : List (DbNode DeployableElement)) (nodeCount : Nat) :
    DeployableFactory :=
  DbFactory.load file nodeCount fun node =>
    createInstance modules (some node) node.name (node.body.infrastructure.getD .libvirt)
      (node.body.username.getD "nobody".toList)

/-- A deployable of an infrastructure that has a module connects to `cped`. -/
def get (modules : Modules) (f : DeployableFactory) (name : CString)
    (infrastructure : Infrastructure) (username : CString) (host : Host) :
    Except DeployableFactory DeployableFactory :=
  if f.existsName name then .ok f
  else if modules.haveMod infrastructure ∧ host.cpe = false then .error f
  else .ok (f.put name (createInstance modules (f.find name) name infrastructure username))

/-- `create` of a deployable, which only OpenStack overrides. -/
def created (d : DbObject DeployableAttrs) (host : Host) : Option Bool :=
  if d.attrs.infrastructure = .openstack then host.create else some true

def deleteWith (f : DeployableFactory) (d : DbObject DeployableAttrs) (name : CString)
    (host : Host) : Except DeployableFactory DeployableFactory :=
  if d.attrs.infrastructure = .openstack ∧ host.delete = false then .error f
  else f.deleteInstance name

def delete (f : DeployableFactory) (name : CString) (host : Host) :
    Except DeployableFactory DeployableFactory :=
  match f.lookup name with
  | none => f.deleteInstance name
  | some none => .error f
  | some (some d) => deleteWith f d name host

def create (modules : Modules) (f : DeployableFactory) (name : CString)
    (infrastructure : Infrastructure) (username monitor : CString) (host : Host) :
    Except DeployableFactory DeployableFactory := do
  let f ← get modules f name infrastructure username host
  let f ← f.modify name fun attrs => { attrs with monitor := some monitor }
  match f.lookup name with
  | some (some d) =>
      match created d host with
      | some true => f.saveInstance name
      | some false => deleteWith f d name host
      | none => .error f
  | some none | none => .error f

end DeployableFactory

/-- An element that a loop comes to: an assembly below a deployable, or a deployable. -/
inductive Visited where
  | assembly (parent : Nat) (name : CString)
  | deployable (id : Nat) (name : CString)
  deriving DecidableEq, Repr

def Visited.name : Visited → CString
  | .assembly _ name => name
  | .deployable _ name => name

def Visited.below (node : DbNode DeployableElement) : List Visited :=
  node.body.assemblies.map (Visited.assembly node.id)

/--
What a loop over `xml_node.children` visits: the child elements, or whatever the iterator of
libxml2 comes to.  That starts at the first child and goes on depth first; behind the last child
it climbs to the parent and takes the elements that follow it, up to the end of the document.
-/
inductive Iteration where
  | children
  | document
  deriving DecidableEq, Repr

def Iteration.visits (iteration : Iteration) (f : DeployableFactory) (name : CString) :
    List Visited :=
  match f.nodeOf name with
  | none => []
  | some node =>
      match iteration with
      | .children => Visited.below node
      | .document =>
          -- `children` is `None` where there is no child to start at
          if node.body.assemblies = [] then []
          else Visited.below node ++ (f.after node.id).flatMap fun next =>
            .deployable next.id next.name :: Visited.below next

def DeployableFactory.unlink (f : DeployableFactory) : Visited → DeployableFactory
  | .assembly parent name =>
      f.rewrite parent fun node =>
        { node with body := { node.body with assemblies := node.body.assemblies.erase name } }
  | .deployable id _ => f.unlinkNode id

/-! ## Commands -/

structure Pcloudsh where
  assemblies : AssemblyFactory
  deployables : DeployableFactory
  assemblyModules : Modules
  deployableModules : Modules
  deriving DecidableEq, Repr

namespace Pcloudsh

def onAssemblies (s : Pcloudsh) :
    Except AssemblyFactory AssemblyFactory → Except Pcloudsh Pcloudsh
  | .ok f => .ok { s with assemblies := f }
  | .error f => .error { s with assemblies := f }

def onDeployables (s : Pcloudsh) :
    Except DeployableFactory DeployableFactory → Except Pcloudsh Pcloudsh
  | .ok f => .ok { s with deployables := f }
  | .error f => .error { s with deployables := f }

def assemblyAdd (iteration : Iteration) (s : Pcloudsh) (d : DbObject DeployableAttrs)
    (dname aname : CString) (host : Host) : Except Pcloudsh Pcloudsh :=
  if s.assemblies.existsName aname then do
    let s ← s.onDeployables (s.deployables.saveInstance dname)
    if (iteration.visits s.deployables dname).any (·.name = aname) then .ok s
    else
      let s ← s.onDeployables (s.deployables.edit dname fun element =>
        { element with assemblies := element.assemblies ++ [aname] })
      let s ← s.onDeployables (s.deployables.saveInstance dname)
      s.onAssemblies (AssemblyFactory.register s.assemblyModules s.assemblies aname
        d.attrs.infrastructure d.name d.attrs.username host)
  else .ok s

def assemblyRemove (iteration : Iteration) (s : Pcloudsh) (dname aname : CString) :
    Except Pcloudsh Pcloudsh :=
  if s.assemblies.existsName aname then do
    let s ← s.onAssemblies (s.assemblies.modify aname fun attrs =>
      { attrs with deployment := none })
    let s ← s.onAssemblies (s.assemblies.saveInstance aname)
    let s ← s.onDeployables (s.deployables.saveInstance dname)
    match (iteration.visits s.deployables dname).find? (·.name = aname) with
    | some visit => s.onDeployables ((s.deployables.unlink visit).saveInstance dname)
    | none => .ok s
  else .ok s

/-- `assembly_list_get` and the listing; the assemblies are those of a factory of its own. -/
def assemblyList (iteration : Iteration) (s : Pcloudsh) (dname : CString) :
    Except Pcloudsh Pcloudsh :=
  let fac := AssemblyFactory.load s.assemblyModules s.assemblies.file s.assemblies.nodeCount
  if (s.deployables.nodeOf dname).isSome ∧
      ∀ visit ∈ iteration.visits s.deployables dname, fac.lookup visit.name ≠ some none
  then .ok s
  else .error s

def withDeployable (s : Pcloudsh) (dname : CString)
    (command : DbObject DeployableAttrs → Except Pcloudsh Pcloudsh) :
    Except Pcloudsh Pcloudsh :=
  match s.deployables.lookup dname with
  | none => .ok s
  | some none => .error s
  | some (some d) => command d

def parseInfrastructure (word : CString) : Option Infrastructure :=
  if word = "libvirt".toList then some .libvirt
  else if word = "aeolus".toList then some .aeolus
  else if word = "openstack".toList then some .openstack
  else if word = "ovirt".toList then some .ovirt
  else none

def parseMonitor (word : CString) : Option CString :=
  if word = "pm".toList then some "passive".toList
  else if word = "am".toList then some "active".toList
  else none

def createOptions : List CString → Option (CString × Infrastructure × CString × CString)
  | [name] => some (name, .libvirt, "root".toList, "active".toList)
  | [name, inf, user] =>
      (parseInfrastructure inf).map fun inf => (name, inf, user, "active".toList)
  | [name, inf, user, monitor] => do
      let inf ← parseInfrastructure inf
      let monitor ← parseMonitor monitor
      some (name, inf, user, monitor)
  | _ => none

def distros : List CString := ["F15".toList, "F16".toList, "rhel61".toList, "U10".toList]

end Pcloudsh

inductive ShellCommand where
  | assemblyCreate
  | assemblyClone
  | assemblyDelete
  | assemblyList
  | assemblyResourceAdd
  | assemblyResourceRemove
  | assemblyResourceList
  | escalationAssemblySet
  | escalationResourceSet
  | deployableCreate
  | deployableDelete
  | deployableList
  | deployableAssemblyAdd
  | deployableAssemblyRemove
  | deployableAssemblyList
  deriving DecidableEq, Repr

namespace Pcloudsh

/-- The `do_` method of the command; other numbers of options print the help text. -/
def exec (iteration : Iteration) (s : Pcloudsh) (host : Host) :
    ShellCommand → List CString → Except Pcloudsh Pcloudsh
  | .assemblyCreate, [name, distro, arch] =>
      if distro ∈ distros ∧ arch = "x86_64".toList then
        s.onAssemblies
          (AssemblyFactory.create s.assemblies name (distro ++ "-".toList ++ arch) host)
      else .ok s
  | .assemblyClone, [source, dest] =>
      s.onAssemblies (AssemblyFactory.clone s.assemblies source dest host)
  | .assemblyDelete, [name] => s.onAssemblies (AssemblyFactory.delete s.assemblies name host)
  | .assemblyList, [] =>
      if s.assemblies.all.all (·.2.isSome) then .ok s else .error s
  | .assemblyResourceAdd, [_, _, name] =>
      s.onAssemblies (AssemblyFactory.resourceCommand s.assemblies name host.resources)
  | .assemblyResourceRemove, [_, name] =>
      s.onAssemblies (AssemblyFactory.resourceCommand s.assemblies name host.resources)
  | .assemblyResourceList, [name] =>
      s.onAssemblies (AssemblyFactory.resourceCommand s.assemblies name
        (if host.resources = .raised then .raised else .refused))
  | .escalationAssemblySet, [name, failures, period] =>
      s.onAssemblies (AssemblyFactory.escalationAssemblySet s.assemblies name failures period)
  | .escalationResourceSet, [_, name, _, _] =>
      s.onAssemblies (AssemblyFactory.resourceCommand s.assemblies name host.resources)
  | .deployableCreate, options =>
      match createOptions options with
      | some (name, inf, user, monitor) =>
          if s.deployables.existsName name then .ok s
          else s.onDeployables
            (DeployableFactory.create s.deployableModules s.deployables name inf user monitor host)
      | none => .ok s
  | .deployableDelete, [name] =>
      s.onDeployables (DeployableFactory.delete s.deployables name host)
  | .deployableList, _ =>
      if s.deployables.all.all (·.2.isSome) then .ok s else .error s
  | .deployableAssemblyAdd, [dname, aname] =>
      s.withDeployable dname fun d => s.assemblyAdd iteration d dname aname host
  | .deployableAssemblyRemove, [dname, aname] =>
      s.withDeployable dname fun _ => s.assemblyRemove iteration dname aname
  | .deployableAssemblyList, [dname] =>
      s.withDeployable dname fun _ => s.assemblyList iteration dname
  | _, _ => .ok s

def start (s : Pcloudsh) (assemblyModules deployableModules : Modules) : Pcloudsh :=
  ⟨AssemblyFactory.load assemblyModules s.assemblies.file s.assemblies.nodeCount,
    DeployableFactory.load deployableModules s.deployables.file s.deployables.nodeCount,
    assemblyModules, deployableModules⟩

end Pcloudsh

inductive ShellInput where
  | line (command : ShellCommand) (options : List CString) (host : Host)
  | start (assemblyModules deployableModules : Modules)
  deriving DecidableEq, Repr

namespace Pcloudsh

def step (iteration : Iteration) (s : Pcloudsh) : ShellInput → Except Empty Pcloudsh
  | .line command options host =>
      match s.exec iteration host command options with
      | .ok s' => .ok s'
      | .error s' => .ok (s'.start s.assemblyModules s.deployableModules)
  | .start assemblyModules deployableModules => .ok (s.start assemblyModules deployableModules)

end Pcloudsh

end PacemakerCloud
