import PacemakerCloud.Config.Cf2pe

/-!
# Pointers into the generated configuration

The daemon finds the `nvpair` of a parameter once, by the id of its primitive and its own
name, and later sets the value through the node it found.  A node is the path of child
positions that leads to it.
-/

namespace PacemakerCloud

open Foundation

/-- `get_xml_child_by`, with the position of the child. -/
def getXmlChildBy (parent : Xml) (nodeName : String) (prop : Option (String × CString)) :
    Option (Nat × Xml) := do
  let i ← parent.children.findIdx? fun child =>
    child.named nodeName &&
      match prop with
      | none => true
      | some (propName, propValue) => child.attr? propName = some propValue
  let child ← parent.children[i]?
  return (i, child)

/-- Without a name the first `nvpair` is found. -/
def findPeParameter (pe : Xml) (rscId : CString) (parmName : Option CString) :
    Option (List Nat) := do
  let (config, configNode) ← getXmlChildBy pe "configuration" none
  let (rscs, rscsNode) ← getXmlChildBy configNode "resources" none
  let (prim, primNode) ← getXmlChildBy rscsNode "primitive" (some ("id", rscId))
  let (insts, instsNode) ← getXmlChildBy primNode "instance_attributes" none
  let (nvpair, _) ← getXmlChildBy instsNode "nvpair" (parmName.map ("name", ·))
  return [config, rscs, prim, insts, nvpair]

/-! ## Values by resource and name -/

abbrev Assignment := CString → CString → CString → CString

def Assignment.override (f : Assignment) (rscId parmName value : CString) : Assignment :=
  fun id name old => if id = rscId ∧ name = parmName then value else f id name old

def NvPair.assign (f : Assignment) (id : CString) (nv : NvPair) : NvPair :=
  { nv with value := f id nv.name nv.value }

def Primitive.assign (f : Assignment) (p : Primitive) : Primitive :=
  { p with
    attributes := p.attributes.map fun attributes =>
      { attributes with nvpairs := attributes.nvpairs.map (NvPair.assign f p.id) } }

def Cib.assign (f : Assignment) (cib : Cib) : Cib :=
  { cib with resources := cib.resources.map (Primitive.assign f) }

theorem Cib.assign_id (cib : Cib) : cib.assign (fun _ _ old => old) = cib := by
  have hpair : ∀ id, NvPair.assign (fun _ _ old => old) id = fun nv => nv := fun _ => rfl
  have hprimitive : Primitive.assign (fun _ _ old => old) = fun p => p := by
    funext p
    simp [Primitive.assign, hpair]
  simp [Cib.assign, hprimitive]

/-- An id leads to one primitive, and a name in it to one `nvpair`. -/
structure Cib.Addressed (cib : Cib) : Prop where
  ids_nodup : (cib.resources.map Primitive.id).Nodup
  names_nodup : ∀ p ∈ cib.resources, ∀ attributes, p.attributes = some attributes →
    (attributes.nvpairs.map NvPair.name).Nodup

theorem Primitive.assign_congr {f g : Assignment} {p : Primitive}
    (h : ∀ name old, f p.id name old = g p.id name old) : p.assign f = p.assign g := by
  have hassign : NvPair.assign f p.id = NvPair.assign g p.id := by
    funext nv
    simp [NvPair.assign, h]
  simp [Primitive.assign, hassign]

theorem NvPair.setProp_toXml (f : Assignment) (id value : CString) (nv : NvPair) :
    Xml.setProp "value" value [] (nv.assign f id).toXml =
      (nv.assign (f.override id nv.name value) id).toXml := by
  have hvalue : (nv.assign (f.override id nv.name value) id).value = value := by
    simp [NvPair.assign, Assignment.override]
  simp only [NvPair.toXml, hvalue]
  rfl

theorem Primitive.setProp_toXml {p : Primitive} {attributes : InstanceAttributes}
    (ha : p.attributes = some attributes) (hnames : (attributes.nvpairs.map NvPair.name).Nodup)
    {j : Nat} {nv : NvPair} (hj : attributes.nvpairs[j]? = some nv) (f : Assignment)
    (value : CString) :
    Xml.setProp "value" value [0, j] (p.assign f).toXml =
      (p.assign (f.override p.id nv.name value)).toXml := by
  have hpairs : (attributes.nvpairs.map fun nv => (nv.assign f p.id).toXml).modify j
        (Xml.setProp "value" value []) =
      attributes.nvpairs.map fun nv' =>
        (nv'.assign (f.override p.id nv.name value) p.id).toXml := by
    refine modify_map_of_key hnames hj (nv.setProp_toXml f p.id value) ?_
    intro nv' _ hne
    simp [NvPair.assign, Assignment.override, hne]
  simp only [Primitive.toXml, Primitive.assign, ha, Option.map_some, Option.toList_some,
    InstanceAttributes.toXml, List.map_map, Function.comp_def, ← hpairs]
  rfl

theorem Cib.setProp_toXml {cib : Cib} (h : cib.Addressed) {p : Primitive}
    {attributes : InstanceAttributes} {i j : Nat} {nv : NvPair}
    (hi : cib.resources[i]? = some p) (ha : p.attributes = some attributes)
    (hj : attributes.nvpairs[j]? = some nv) (f : Assignment) (value : CString) :
    Xml.setProp "value" value [0, 3, i, 0, j] (cib.assign f).toXml =
      (cib.assign (f.override p.id nv.name value)).toXml := by
  have hnames := h.names_nodup p (List.mem_of_getElem? hi) attributes ha
  have hprimitives : (cib.resources.map fun p => (p.assign f).toXml).modify i
        (Xml.setProp "value" value [0, j]) =
      cib.resources.map fun p' => (p'.assign (f.override p.id nv.name value)).toXml := by
    refine modify_map_of_key h.ids_nodup hi (p.setProp_toXml ha hnames hj f value) ?_
    intro p' _ hne
    exact congrArg Primitive.toXml (Primitive.assign_congr fun _ _ => by
      simp [Assignment.override, hne])
  simp only [Cib.toXml, Cib.assign, List.map_map, Function.comp_def, ← hprimitives]
  rfl

theorem getXmlChildBy_map {α : Type*} {parent : Xml} {nodeName propName : String} {l : List α}
    {F : α → Xml} {key : α → CString} {value : CString} {i : Nat} {x : α}
    (hchildren : parent.children = l.map F) (hnamed : ∀ y, (F y).named nodeName = true)
    (hattr : ∀ y, (F y).attr? propName = some (key y))
    (hfind : l.findIdx? (fun y => key y = value) = some i) (hi : l[i]? = some x) :
    getXmlChildBy parent nodeName (some (propName, value)) = some (i, F x) := by
  have hfind' : (l.map F).findIdx? (fun child => child.named nodeName &&
      decide (child.attr? propName = some value)) = some i := by
    rw [List.findIdx?_map, ← hfind]
    congr 1
    funext y
    simp [hnamed, hattr]
  have hchild : (l.map F)[i]? = some (F x) := by
    simp [hi]
  rw [← hchildren] at hfind' hchild
  simp only [getXmlChildBy]
  rw [hfind']
  simp [hchild]

theorem findPeParameter_spec {cib : Cib} (h : cib.Addressed) {p : Primitive}
    {attributes : InstanceAttributes} {nv : NvPair} {rscId parmName : CString}
    (hp : p ∈ cib.resources) (hid : p.id = rscId) (ha : p.attributes = some attributes)
    (hnv : nv ∈ attributes.nvpairs) (hname : nv.name = parmName) :
    ∃ path, findPeParameter cib.toXml rscId (some parmName) = some path ∧
      ∀ f value, Xml.setProp "value" value path (cib.assign f).toXml =
        (cib.assign (f.override rscId parmName value)).toXml := by
  subst hid hname
  obtain ⟨i, hfind, hi⟩ := findIdx?_key h.ids_nodup hp
  obtain ⟨j, hfind', hj⟩ := findIdx?_key (h.names_nodup p hp attributes ha) hnv
  refine ⟨[0, 3, i, 0, j], ?_, fun f value => Cib.setProp_toXml h hi ha hj f value⟩
  have hprimitive : getXmlChildBy (.elem "resources" [] (cib.resources.map Primitive.toXml))
      "primitive" (some ("id", p.id)) = some (i, p.toXml) :=
    getXmlChildBy_map rfl (fun _ => rfl) (fun _ => rfl) hfind hi
  have hattributes : getXmlChildBy p.toXml "instance_attributes" none =
      some (0, attributes.toXml) := by
    rw [Primitive.toXml, ha]
    rfl
  have hnvpair : getXmlChildBy attributes.toXml "nvpair" (some ("name", nv.name)) =
      some (j, nv.toXml) :=
    getXmlChildBy_map rfl (fun _ => rfl) (fun _ => rfl) hfind' hj
  have hresources : ∃ config, getXmlChildBy cib.toXml "configuration" none = some (0, config) ∧
      getXmlChildBy config "resources" none =
        some (3, .elem "resources" [] (cib.resources.map Primitive.toXml)) :=
    ⟨_, rfl, rfl⟩
  obtain ⟨config, hconfig, hresources⟩ := hresources
  simp [findPeParameter, hconfig, hresources, hprimitive, hattributes, hnvpair]

end PacemakerCloud
