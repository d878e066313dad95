import PacemakerCloud.Config.Cf2pe
import PacemakerCloud.Deployable

/-!
# Loading a deployable document

The tree walk of `cape.c` over the document that the stylesheet reads as well.  Loading
fails where a string is duplicated that is missing.
-/

namespace PacemakerCloud

open Foundation

/-- What `resource_create` reads of a service; a missing name is printed as `(null)`. -/
def readService (node : Xml) : Option Service := do
  let type ← node.attr? "type"
  let rclass ← node.attr? "class"
  return {
    name := (node.attr? "name").getD "(null)".toList
    type := type
    rclass := rclass
    rprovider := node.attr? "provider"
    escalationFailures := node.attr? "escalation_failures"
    escalationPeriod := node.attr? "escalation_period"
    configureExecutable := node.elements.any (·.named "configure_executable") }

/-- `assembly_create`, with `resources_create` for every child `services`. -/
def assemblyCreate (node : Xml) : Option AssemblyNode := do
  let name ← node.attr? "name"
  let uuid ← node.attr? "uuid"
  let services ←
    ((node.childrenNamed "services").flatMap Xml.elements).mapM readService
  return {
    name := name
    uuid := uuid
    escalationFailures := node.attr? "escalation_failures"
    escalationPeriod := node.attr? "escalation_period"
    services := services }

def assemblyMap (nodes : List AssemblyNode) : Deployable where
  assemblies := nodes.foldl (mapPut AssemblyNode.name) []
  names_nodup := nodup_keys_foldl_mapPut (by simp)

/-- `parse_and_load`, with `assemblies_create` for every child `assemblies`. -/
def parseAndLoad (deployable : Xml) : Option Deployable := do
  let _name ← deployable.attr? "name"
  let _uuid ← deployable.attr? "uuid"
  let nodes ←
    ((deployable.childrenNamed "assemblies").flatMap Xml.elements).mapM assemblyCreate
  return assemblyMap nodes

end PacemakerCloud
