import PacemakerCloud.Config.Shell
import PacemakerCloud.Pcloudsh.Database

/-!
# Resources of the assemblies

The commands `assembly_resource_add` and `escalation_resource_set` of the shell, with
`Resource` and `ResourceFactory` of `resource.py`.  A resource is an element below the
`resources` element of an assembly and an object with fields of its own.  The element is
copied from a template, without a look at the object; the object is read from the element
by a shell that finds it in the file, and written to it whenever it is saved again.

Loops over the children of an element go on to the end of the document, as in
`loadFromXml`: a factory keeps the last `resources` element that it meets.  Every assembly
has its object, and its element has the `resources` element that `Assembly.save` gives it.
-/

namespace PacemakerCloud

open Foundation

/-! ## Elements -/

/-- A resource template: the attributes of its root and its `parameters` elements. -/
structure Template where
  type : Option CString
  klass : Option CString
  provider : Option CString
  monitorInterval : Option CString
  parameters : List Params
  deriving DecidableEq, Repr

structure ResourceElement extends Template where
  escalationFailures : Option CString
  escalationPeriod : Option CString
  deriving DecidableEq, Repr

abbrev ResourceNode := DbNode ResourceElement

abbrev AssemblyElement := DbNode (List ResourceNode)

def present (attrs : List (String × Option CString)) : List (CString × CString) :=
  attrs.filterMap fun (attr, value) => value.map (attr.toList, ·)

def elementOf (name : String) (attrs : List (String × Option CString)) (children : List Xml) :
    Xml :=
  .element name.toList (present attrs) children

def parametersXml (params : Params) : Xml :=
  elementOf "parameters" []
    (params.map fun (name, value) => elementOf "parameter" [("name", name), ("value", value)] [])

def ResourceNode.attrs (r : ResourceNode) : List (String × Option CString) :=
  [("type", r.body.type), ("class", r.body.klass), ("provider", r.body.provider),
    ("monitor_interval", r.body.monitorInterval), ("name", some r.name),
    ("escalation_period", r.body.escalationPeriod),
    ("escalation_failures", r.body.escalationFailures)]

def ResourceNode.toXml (r : ResourceNode) : Xml :=
  elementOf "resource" r.attrs (r.body.parameters.map parametersXml)

def position (resources : List ResourceNode) : Position :=
  resources.flatMap fun r => (ResourceNode.toXml r).preorder

/-! ## Objects -/

structure ResourceObject where
  xmlNode : Option Nat
  fields : ShellResource

structure ResourceFactory where
  root : Nat
  all : CString → Option ResourceObject

def ResourceFactory.put (rf : ResourceFactory) (name : CString) (r : ResourceObject) :
    ResourceFactory :=
  { rf with all := Function.update rf.all name (some r) }

def newResource (name : CString) : ShellResource where
  name := some name
  monitorInterval := some "60s".toList
  type := some "http".toList
  klass := some "lsb".toList
  provider := some "heartbeat".toList
  escalationFailures := "INFINITY".toList
  escalationPeriod := "INFINITY".toList
  params := []

def ShellResource.setType (r : ShellResource) (type : CString) : ShellResource :=
  { r with type := some type }

def ShellResource.setEscalation (r : ShellResource) (failures period : CString) :
    ShellResource :=
  { r with escalationFailures := failures, escalationPeriod := period }

def ShellResource.copy (r : ShellResource) (t : Template) : ResourceElement :=
  { t with
    escalationFailures := some r.escalationFailures
    escalationPeriod := some r.escalationPeriod }

/-- `setProp`: an attribute that is set to `None` is empty. -/
def setProp (value : Option CString) : Option CString := some (value.getD [])

def ShellResource.write (r : ShellResource) (e : ResourceElement) : ResourceElement :=
  { e with
    type := setProp r.type
    klass := setProp r.klass
    provider := setProp r.provider
    monitorInterval := setProp r.monitorInterval
    escalationFailures := some r.escalationFailures
    escalationPeriod := some r.escalationPeriod }

def loadResources (all : CString → Option ResourceObject) :
    List ResourceNode → Option (CString → Option ResourceObject)
  | [] => some all
  | r :: rest =>
      if (all r.name).isSome then loadResources all rest
      else
        match loadFromXml (position (r :: rest)) with
        | none => none
        | some fields =>
            loadResources (Function.update all r.name (some ⟨some r.id, fields⟩)) rest

/-! ## Commands -/

inductive TemplateFile where
  | missing
  | malformed
  | template (t : Template)
  deriving DecidableEq, Repr

/--
The assemblies of the shell's database.  An element of a resource is known by its number:
`copies` has the name and the content of its template at that place, and the first `started`
of them were there when the shell was started.
-/
structure ResourceDb where
  doc : List AssemblyElement
  file : List AssemblyElement
  copies : List (CString × Template)
  started : Nat
  /-- The factories of the assemblies, where they are set up. -/
  rfs : CString → Option ResourceFactory

namespace ResourceDb

def start (s : ResourceDb) : ResourceDb :=
  ⟨s.file, s.file, s.copies, s.copies.length, fun _ => none⟩

def save (s : ResourceDb) : ResourceDb := { s with file := s.doc }

def setFactory (s : ResourceDb) (assembly : CString) (rf : ResourceFactory) : ResourceDb :=
  { s with rfs := Function.update s.rfs assembly (some rf) }

def rootNode (s : ResourceDb) (assembly : CString) : Option AssemblyElement :=
  (s.doc.dropWhile (·.name ≠ assembly)).getLast?

def resourceFactorySetup (s : ResourceDb) (assembly : CString) :
    Except ResourceDb ResourceDb :=
  match s.rfs assembly with
  | some _ => .ok s
  | none =>
      match s.rootNode assembly with
      | none => .error s
      | some root =>
          match loadResources (fun _ => none) root.body with
          | none => .error s
          | some all => .ok (s.setFactory assembly ⟨root.id, all⟩)

def lookup (s : ResourceDb) (assembly rsc : CString) : Option ResourceObject :=
  (s.rfs assembly).bind fun rf => rf.all rsc

def put (s : ResourceDb) (assembly rsc : CString) (r : ResourceObject) : ResourceDb :=
  match s.rfs assembly with
  | none => s
  | some rf => s.setFactory assembly (rf.put rsc r)

def rewrite (s : ResourceDb) (id : Nat) (change : ResourceNode → ResourceNode) : ResourceDb :=
  { s with
    doc := s.doc.map fun node =>
      { node with body := node.body.map fun r => if r.id = id then change r else r } }

def addChild (s : ResourceDb) (root : Nat) (r : ResourceNode) : ResourceDb :=
  { s with
    doc := s.doc.map fun node =>
      if node.id = root then { node with body := node.body ++ [r] } else node }

def saveResource (templates : CString → TemplateFile) (s : ResourceDb)
    (assembly rsc : CString) : Except ResourceDb ResourceDb :=
  match s.rfs assembly with
  | none => .error s
  | some rf =>
      match rf.all rsc with
      | none => .error s
      | some r =>
          match r.xmlNode with
          | some id =>
              .ok (s.rewrite id fun node =>
                ⟨node.id, r.fields.name.getD [], r.fields.write node.body⟩)
          | none =>
              let name := r.fields.type.getD "None".toList
              match templates name with
              | .missing | .malformed => .error s
              | .template t =>
                  let id := s.copies.length
                  let added :=
                    s.addChild rf.root ⟨id, r.fields.name.getD [], r.fields.copy t⟩
                  .ok ({ added with copies := s.copies ++ [(name, t)] }.put assembly rsc
                    { r with xmlNode := some id })

def resourceAdd (templates : CString → TemplateFile) (s : ResourceDb)
    (rsc rscType assembly : CString) : Except ResourceDb ResourceDb := do
  let s ← s.resourceFactorySetup assembly
  if (s.lookup assembly rsc).isSome then return s
  else if templates rscType = .missing then return s
  else
    let r : ResourceObject := ⟨none, (newResource rsc).setType rscType⟩
    let s ← (s.put assembly rsc r).saveResource templates assembly rsc
    return s.save

def escalationResourceSet (templates : CString → TemplateFile) (s : ResourceDb)
    (rsc assembly failures period : CString) : Except ResourceDb ResourceDb := do
  let s ← s.resourceFactorySetup assembly
  match s.lookup assembly rsc with
  | none => return s
  | some r =>
      let r : ResourceObject := ⟨r.xmlNode, r.fields.setEscalation failures period⟩
      let s ← (s.put assembly rsc r).saveResource templates assembly rsc
      return s.save

end ResourceDb

inductive ResourceCommand where
  | add (rsc template assembly : CString)
  | escalationSet (rsc assembly failures period : CString)
  | restart
  deriving DecidableEq, Repr

namespace ResourceDb

def exec (templates : CString → TemplateFile) (s : ResourceDb) :
    ResourceCommand → Except ResourceDb ResourceDb
  | .add rsc template assembly =>
      if s.doc.any (·.name = assembly) then s.resourceAdd templates rsc template assembly
      else .ok s
  | .escalationSet rsc assembly failures period =>
      if s.doc.any (·.name = assembly) then
        s.escalationResourceSet templates rsc assembly failures period
      else .ok s
  | .restart => .ok s.start

def step (templates : CString → TemplateFile) (s : ResourceDb) (command : ResourceCommand) :
    Except Empty ResourceDb :=
  match s.exec templates command with
  | .ok s' => .ok s'
  | .error s' => .ok s'.start

end ResourceDb

end PacemakerCloud
