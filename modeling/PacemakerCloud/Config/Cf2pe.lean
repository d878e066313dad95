import PacemakerCloud.Foundation.Xml

/-!
# The configuration that `cf2pe.xsl` generates

The stylesheet turns a deployable document into the configuration of the policy engine.
A `Cib` holds what depends on the document; `Cib.toXml` puts it between the literal
elements of the template.  The values of the parameters are a parameter of the model, as
the daemon changes them in the generated document later.
-/

namespace PacemakerCloud

open Foundation

structure NvPair where
  id : CString
  name : CString
  value : CString
  deriving DecidableEq, Repr

structure InstanceAttributes where
  id : CString
  nvpairs : List NvPair
  deriving DecidableEq, Repr

/-- The `op` element of a primitive, with the name `monitor`. -/
structure MonitorOp where
  id : CString
  interval : CString
  deriving DecidableEq, Repr

structure Primitive where
  id : CString
  rclass : CString
  type : CString
  provider : Option CString
  attributes : Option InstanceAttributes
  operation : Option MonitorOp
  deriving DecidableEq, Repr

/-- A `node` element, with the type `normal`. -/
structure CibNode where
  id : CString
  uname : CString
  deriving DecidableEq, Repr

/-- A child of `constraints`, with the score `INFINITY`. -/
inductive CibConstraint where
  | rscLocation (id rsc node : CString)
  | rscOrder (id first next : CString)
  deriving DecidableEq, Repr

structure Cib where
  nodes : List CibNode
  resources : List Primitive
  constraints : List CibConstraint
  deriving DecidableEq, Repr

/-! ## The generated document -/

def NvPair.toXml (p : NvPair) : Xml :=
  .elem "nvpair" [("id", p.id), ("name", p.name), ("value", p.value)] []

def InstanceAttributes.toXml (attributes : InstanceAttributes) : Xml :=
  .elem "instance_attributes" [("id", attributes.id)] (attributes.nvpairs.map NvPair.toXml)

def MonitorOp.toXml (op : MonitorOp) : Xml :=
  .elem "operations" []
    [.elem "op" [("id", op.id), ("name", "monitor".toList), ("interval", op.interval)] []]

def Primitive.toXml (p : Primitive) : Xml :=
  .elem "primitive"
    ([("id", p.id), ("class", p.rclass), ("type", p.type)] ++
      (p.provider.map fun provider => ("provider", provider)).toList)
    ((p.attributes.map InstanceAttributes.toXml).toList ++
      (p.operation.map MonitorOp.toXml).toList)

def CibNode.toXml (n : CibNode) : Xml :=
  .elem "node" [("id", n.id), ("uname", n.uname), ("type", "normal".toList)] []

def CibConstraint.toXml : CibConstraint → Xml
  | .rscLocation id rsc node =>
      .elem "rsc_location"
        [("id", id), ("rsc", rsc), ("score", "INFINITY".toList), ("node", node)] []
  | .rscOrder id first next =>
      .elem "rsc_order"
        [("id", id), ("first", first), ("then", next), ("score", "INFINITY".toList)] []

def setting (id name value : String) : Xml :=
  NvPair.toXml ⟨id.toList, name.toList, value.toList⟩

def crmConfig : Xml :=
  .elem "crm_config" []
    [.elem "cluster_property_set" [("id", "bootstrap-options".toList)]
      [setting "opt-startup-fencing" "startup-fencing" "false",
        setting "opt-health-strategy" "node-health-strategy" "none",
        setting "opt-no-start-failure" "start-failure-is-fatal" "false",
        setting "opt-not-symmetric" "symmetric-cluster" "false",
        setting "opt-stonith-disabled" "stonith-enabled" "false",
        setting "opt-no-quorum-policy" "no-quorum-policy" "ignore"]]

def rscDefaults : Xml :=
  .elem "rsc_defaults" []
    [.elem "meta_attributes" [("id", "opt1".toList)]
        [setting "rsc-default-2" "is-managed-default" "true"],
      .elem "meta_attributes" [("id", "opt2".toList)]
        [setting "rsc-default-3" "multiple-active" "stop_start"]]

def Cib.toXml (cib : Cib) : Xml :=
  .elem "cib"
    [("admin_epoch", "1".toList), ("epoch", "1".toList), ("num_updates", "1".toList),
      ("have-quorum", "1".toList), ("dc-uuid", "0".toList),
      ("validate-with", "pacemaker-1.2".toList)]
    [.elem "configuration" []
      [crmConfig, rscDefaults,
        .elem "nodes" [] (cib.nodes.map CibNode.toXml),
        .elem "resources" [] (cib.resources.map Primitive.toXml),
        .elem "constraints" [] (cib.constraints.map CibConstraint.toXml)]]

/-! ## The stylesheet -/

def qualified (kind : String) (assembly service : CString) : CString :=
  kind.toList ++ assembly ++ '_' :: service

theorem qualified_eq_iff {kind kind' : String} {assembly assembly' service service' : CString}
    (hlength : kind.toList.length = kind'.toList.length) :
    qualified kind assembly service = qualified kind' assembly' service' ↔
      kind.toList = kind'.toList ∧
        assembly ++ '_' :: service = assembly' ++ '_' :: service' := by
  simp only [qualified, List.append_assoc]
  constructor
  · intro h
    exact List.append_inj h hlength
  · rintro ⟨hkind, hrest⟩
    rw [hkind, hrest]

theorem qualified_inj {kind : String} {assembly assembly' service service' : CString} :
    qualified kind assembly service = qualified kind assembly' service' ↔
      assembly ++ '_' :: service = assembly' ++ '_' :: service' := by
  simp [qualified_eq_iff]

namespace Foundation.Xml

def assemblies (deployable : Xml) : List Xml := deployable.select ["assemblies", "assembly"]

def services (assembly : Xml) : List Xml := assembly.select ["services", "service"]

def parameters (service : Xml) : List Xml := service.select ["parameters", "parameter"]

def parameterNames (service : Xml) : List CString :=
  service.parameters.map (·.attrText "name")

def configured (service : Xml) : Bool :=
  !(service.childrenNamed "configure_executable").isEmpty

def dependencies (deployable : Xml) : List Xml :=
  deployable.select ["constraints", "service_dependancy"]

def isOcf (service : Xml) : Bool := service.attrText "class" = "ocf".toList

end Foundation.Xml

section

variable (value : Xml → CString)

def paramNvPair (parameter : Xml) : NvPair :=
  { id := "param_".toList ++ parameter.attrText "name"
    name := parameter.attrText "name"
    value := value parameter }

def rscPrimitive (assName : CString) (service : Xml) : Primitive :=
  { id := qualified "rsc_" assName (service.attrText "name")
    rclass := service.attrText "class"
    type := service.attrText "type"
    provider := if service.isOcf then some (service.attrText "provider") else none
    attributes :=
      if service.isOcf then
        some
          { id := "attrs_".toList ++ service.attrText "name"
            nvpairs := service.parameters.map (paramNvPair value) }
      else none
    operation := some
      { id := qualified "monitor_" assName (service.attrText "name")
        interval := service.attrText "monitor_interval" } }

def executableUrl (service : Xml) : CString :=
  (((service.childrenNamed "configure_executable").filterMap (·.attr? "url")).head?).getD []

def cfgPrimitive (assName : CString) (service : Xml) : Primitive :=
  { id := qualified "cfg_" assName (service.attrText "name")
    rclass := "ocf".toList
    type := "script_runner".toList
    provider := some "pacemaker-cloud".toList
    attributes := some
      { id := "attrs_".toList ++ service.attrText "name"
        nvpairs :=
          { id := "param_url_".toList ++ service.attrText "name"
            name := "executable_url".toList
            value := executableUrl service } ::
            service.parameters.map (paramNvPair value) }
    operation := none }

def servicePrimitives (assName : CString) (service : Xml) : List Primitive :=
  rscPrimitive value assName service ::
    if service.configured then [cfgPrimitive value assName service] else []

def serviceConstraints (assName : CString) (service : Xml) : List CibConstraint :=
  let name := service.attrText "name"
  .rscLocation (qualified "loc_" assName name) (qualified "rsc_" assName name) assName ::
    if service.configured then
      [.rscOrder (qualified "depend_" assName name) (qualified "cfg_" assName name)
          (qualified "rsc_" assName name),
        .rscLocation (qualified "loc_cfg_" assName name) (qualified "cfg_" assName name)
          assName]
    else []

def dependencyOrder (dependency : Xml) : CibConstraint :=
  .rscOrder ("depend_".toList ++ dependency.attrText "id") (dependency.attrText "first")
    (dependency.attrText "then")

/-- The template for `/deployable`, with the given values of the parameters. -/
def cf2peWith (deployable : Xml) : Cib :=
  { nodes := deployable.assemblies.map fun assembly =>
      ⟨assembly.attrText "uuid", assembly.attrText "name"⟩
    resources := deployable.assemblies.flatMap fun assembly =>
      assembly.services.flatMap (servicePrimitives value (assembly.attrText "name"))
    constraints :=
      (deployable.assemblies.flatMap fun assembly =>
        assembly.services.flatMap (serviceConstraints (assembly.attrText "name"))) ++
        deployable.dependencies.map dependencyOrder }

end

def initialValue (parameter : Xml) : CString := parameter.valueOf ["value"]

def cf2pe (deployable : Xml) : Cib := cf2peWith initialValue deployable

end PacemakerCloud
