import PacemakerCloud.Pcloudsh.Cache

/-!
# Commands that fail

`assembly_create` and `assembly_clone` stop where the template, the JEOS or the source is
missing, and where the image that they are to make exists already.  What they leave in the
document then: `create` deletes the element of the name, be it its own or an older one, and
`clone` saves the assembly all the same.
-/

namespace PacemakerCloud

open Foundation

namespace DbFactory

variable {α β : Type} {f : DbFactory α β} {name : CString} {o : DbObject α}

def DocKept (f : DbFactory α β) (r : Except (DbFactory α β) (DbFactory α β)) : Prop :=
  Ends (·.doc = f.doc) (·.doc = f.doc) r

theorem docKept_congr {f' : DbFactory α β} (h : f'.doc = f.doc)
    {r : Except (DbFactory α β) (DbFactory α β)} : f'.DocKept r ↔ f.DocKept r := by
  rw [DocKept, DocKept, h]

theorem docKept_deleteInstance_iff : f.DocKept (f.deleteInstance name) ↔ f.find name = none := by
  unfold deleteInstance
  cases hfind : f.find name with
  | none => simp [DocKept, Ends]
  | some node =>
      have hgone : f.doc.filter (·.id ≠ node.id) ≠ f.doc := by
        intro heq
        have hmem := mem_of_find hfind
        rw [← heq] at hmem
        simp at hmem
      by_cases hexists : f.existsName name
      · simpa [DocKept, Ends, hexists, save, unlinkNode] using hgone
      · simpa [DocKept, Ends, hexists, unlinkNode] using hgone

def AlreadySaved [DbRecord α β] (f : DbFactory α β) (o : DbObject α) : Prop :=
  ∃ id, o.xmlNode = some id ∧ ∀ node ∈ f.doc, node.id = id →
    node.name = o.name ∧ node.body = DbRecord.write (some node.body) o.attrs

theorem alreadySaved_congr [DbRecord α β] {f' : DbFactory α β} (h : f'.doc = f.doc) :
    f'.AlreadySaved o ↔ f.AlreadySaved o := by
  rw [AlreadySaved, AlreadySaved, h]

theorem doc_rewrite_iff {id : Nat} {change : DbNode β → DbNode β} :
    (f.rewrite id change).doc = f.doc ↔ ∀ node ∈ f.doc, node.id = id → change node = node := by
  rw [rewrite, map_eq_self_iff]
  refine forall₂_congr fun node _ => ?_
  by_cases hid : node.id = id
  · simp [hid]
  · simp [hid]

theorem docKept_saveInstance_iff [DbRecord α β] (ho : f.lookup name = some (some o)) :
    f.DocKept (f.saveInstance name) ↔ f.AlreadySaved o := by
  simp only [saveInstance, ho]
  cases hnode : o.xmlNode with
  | none => simp [DocKept, Ends, AlreadySaved, hnode, newChild, put, save]
  | some id =>
      have hsame : ∀ node : DbNode β,
          (⟨node.id, o.name, DbRecord.write (some node.body) o.attrs⟩ : DbNode β) = node ↔
            node.name = o.name ∧ node.body = DbRecord.write (some node.body) o.attrs := by
        rintro ⟨id', name', body⟩
        simp [eq_comm]
      simp only [DocKept, Ends, AlreadySaved, hnode, save, doc_rewrite_iff, hsame,
        Option.some.injEq, exists_eq_left']

theorem exists_modify {name' : CString} {d : Option (DbObject α)}
    (ho : f.lookup name = some (some o)) (hd : f.lookup name' = some d) (change : α → α) :
    ∃ f₁ o₁ d₁, f.modify name change = .ok f₁ ∧ f₁.doc = f.doc ∧
      f₁.lookup name = some (some o₁) ∧ f₁.lookup name' = some d₁ ∧ (d₁ = none ↔ d = none) := by
  let o₁ : DbObject α := { o with attrs := change o.attrs }
  have hmodify : f.modify name change = .ok (f.put name (some o₁)) := by
    simp only [modify, ho, o₁]
  have ho₁ : (f.put name (some o₁)).lookup name = some (some o₁) := by simp
  by_cases hname : name' = name
  · subst hname
    cases ho.symm.trans hd
    exact ⟨_, o₁, _, hmodify, rfl, ho₁, ho₁, by simp⟩
  · exact ⟨_, o₁, d, hmodify, rfl, ho₁, by simp [Function.update_of_ne hname, hd], Iff.rfl⟩

end DbFactory

namespace AssemblyFactory

variable {f : AssemblyFactory} {name source dest : CString} {host : Host}

def got (f : AssemblyFactory) (name : CString) : Option (DbObject AssemblyAttrs) :=
  match f.lookup name with
  | some o => o
  | none => some (assembly (f.find name) name)

theorem doc_get (f : AssemblyFactory) (name : CString) : (get f name).doc = f.doc := by
  unfold get
  split <;> rfl

theorem lookup_get_self : (get f name).lookup name = some (f.got name) := by
  unfold got
  cases hname : f.lookup name with
  | none =>
      have hnew : ¬f.existsName name := by simp [DbFactory.existsName, hname]
      rw [get, if_neg hnew, DbFactory.lookup_put, Function.update_self]
  | some o => rw [get_of_exists (DbFactory.existsName_of_lookup hname), hname]

theorem got_get : (get f name).got source = f.got source := by
  by_cases hold : f.existsName name
  · rw [get_of_exists hold]
  · have hnew : f.lookup name = none := by simpa [DbFactory.existsName] using hold
    rw [get, if_neg hold, got, DbFactory.lookup_put]
    by_cases hname : source = name
    · subst hname
      simp only [Function.update_self, got, hnew]
    · rw [Function.update_of_ne hname, DbFactory.find_put, got]

theorem lookup_get_get :
    (get (get f name) source).lookup name = some (f.got name) ∧
      (get (get f name) source).lookup source = some (f.got source) := by
  have hname : (get f name).existsName name := existsName_get.mpr (.inl rfl)
  constructor
  · rw [lookup_get hname, lookup_get_self]
  · rw [lookup_get_self, got_get]

theorem cloneFrom_of_imageExists {d o : DbObject AssemblyAttrs}
    (himage : host.cloneFrom = .imageExists) (hd : f.lookup name = some (some d))
    (ho : f.lookup source = some (some o)) :
    cloneFrom f name source host = .ok (f, false) := by
  simp only [cloneFrom, hd, ho, himage]

theorem cloneFrom_of_none (hd : f.lookup name = some none) :
    cloneFrom f name source host = .error f := by
  simp only [cloneFrom, hd]

section

variable {original : DbObject AssemblyAttrs} {d : Option (DbObject AssemblyAttrs)}
  (himage : host.cloneFrom = .imageExists) (hd : f.lookup name = some d)
  (horiginal : f.lookup source = some (some original))

include himage hd horiginal

theorem docKept_clone_end_iff :
    f.DocKept (do
      let (f, _) ← cloneFrom f name source host
      finish f name host) ↔
    host.cleanXml = false ∨ ∀ o, d = some o → f.AlreadySaved o := by
  cases d with
  | none => simp [cloneFrom_of_none hd, DbFactory.DocKept, Ends, bind, Except.bind]
  | some o =>
      rw [cloneFrom_of_imageExists himage hd horiginal, ok_bind]
      cases hclean : host.cleanXml with
      | false => simp [finish, hclean, DbFactory.DocKept, Ends]
      | true => simp [finish, hclean, DbFactory.docKept_saveInstance_iff hd]

theorem docKept_create_end_iff :
    f.DocKept (do
      let (f, cloned) ← cloneFrom f name source host
      if cloned then finish f name host else f.deleteInstance name) ↔
    d = none ∨ f.find name = none := by
  cases d with
  | none => simp [cloneFrom_of_none hd, DbFactory.DocKept, Ends, bind, Except.bind]
  | some o =>
      rw [cloneFrom_of_imageExists himage hd horiginal, ok_bind]
      simp [DbFactory.docKept_deleteInstance_iff]

end

theorem docKept_clone_iff
    (hstops : (∃ original, f.got source = some original ∧ original.attrs.uuid = []) ∨
      host.cloneFrom = .imageExists) :
    f.DocKept (clone f source dest host) ↔
      (∀ original, f.got source = some original → original.attrs.uuid = []) ∨
        host.cleanXml = false ∨ ∀ o, f.got dest = some o → f.AlreadySaved o := by
  obtain ⟨hsource, hdest⟩ : (get (get f source) dest).lookup source = some (f.got source) ∧
      (get (get f source) dest).lookup dest = some (f.got dest) := lookup_get_get
  have hdoc : (get (get f source) dest).doc = f.doc := by rw [doc_get, doc_get]
  rw [← DbFactory.docKept_congr hdoc]
  unfold clone
  simp only [hsource]
  cases hgot : f.got source with
  | none => simp [DbFactory.DocKept, Ends]
  | some original =>
      by_cases huuid : original.attrs.uuid = []
      · simp [huuid, DbFactory.DocKept, Ends]
      · have himage : host.cloneFrom = .imageExists := by
          refine hstops.resolve_left ?_
          rintro ⟨original', hgot', huuid'⟩
          cases hgot.symm.trans hgot'
          exact huuid huuid'
        have huuid' : ¬∀ o, some original = some o → o.attrs.uuid = [] :=
          fun h => huuid (h original rfl)
        rw [hgot] at hsource
        simp only [if_neg huuid, huuid', false_or]
        rw [docKept_clone_end_iff himage hdest hsource]
        simp only [DbFactory.alreadySaved_congr hdoc]

theorem docKept_create_iff
    (hstops : host.tdl = false ∨ host.jeosXml = false ∨ host.cloneFrom = .imageExists) :
    f.DocKept (create f name source host) ↔
      host.tdl = false ∨ host.jeosXml = false ∨ f.got name = none ∨
        f.got (jeosOf source) = none ∨ f.find name = none := by
  obtain ⟨hname, hjeos⟩ :
      (get (get f name) (jeosOf source)).lookup name = some (f.got name) ∧
        (get (get f name) (jeosOf source)).lookup (jeosOf source) =
          some (f.got (jeosOf source)) := lookup_get_get
  have hdoc : (get (get f name) (jeosOf source)).doc = f.doc := by rw [doc_get, doc_get]
  unfold create
  cases htdl : host.tdl with
  | false => simp [DbFactory.DocKept, Ends, doc_get]
  | true =>
      simp only [if_true]
      cases hgot : f.got (jeosOf source) with
      | none =>
          rw [hgot] at hjeos
          simp only [DbFactory.modify, hjeos]
          simp [DbFactory.DocKept, Ends, bind, Except.bind, hdoc]
      | some jeos =>
          rw [hgot] at hjeos
          obtain ⟨f₁, jeos₁, d, hmodify, hdoc₁, hjeos₁, hd, hnone⟩ :=
            DbFactory.exists_modify hjeos hname fun attrs => { attrs with jeosName := source }
          rw [hdoc] at hdoc₁
          rw [hmodify, ok_bind]
          cases hxml : host.jeosXml with
          | false => simp [DbFactory.DocKept, Ends, hdoc₁]
          | true =>
              have himage : host.cloneFrom = .imageExists := by simpa [htdl, hxml] using hstops
              have hfind : f₁.find name = f.find name := by
                rw [DbFactory.find, DbFactory.find, hdoc₁]
              rw [if_pos rfl, ← DbFactory.docKept_congr hdoc₁,
                docKept_create_end_iff himage hd hjeos₁, hnone, hfind]
              simp

end AssemblyFactory

/-! ## The commands -/

inductive FactoryCommand where
  | create (name source : CString)
  | clone (source dest : CString)
  deriving DecidableEq, Repr

namespace FactoryCommand

def exec (f : AssemblyFactory) (host : Host) :
    FactoryCommand → Except AssemblyFactory AssemblyFactory
  | .create name source => AssemblyFactory.create f name source host
  | .clone source dest => AssemblyFactory.clone f source dest host

/-- The template, the JEOS or the source is missing, or the image exists already. -/
def Stops (f : AssemblyFactory) (host : Host) : FactoryCommand → Prop
  | .create _ _ => host.tdl = false ∨ host.jeosXml = false ∨ host.cloneFrom = .imageExists
  | .clone source _ =>
      (∃ original, f.got source = some original ∧ original.attrs.uuid = []) ∨
        host.cloneFrom = .imageExists

def words : FactoryCommand → List CString
  | .create name source => [name, source]
  | .clone source dest => [source, dest]

/-- An apostrophe would end a name in an XPath expression, and select other elements. -/
structure Fails (command : FactoryCommand) (f : AssemblyFactory) (host : Host) : Prop where
  plain : ∀ word ∈ command.words, '\'' ∉ word
  stops : command.Stops f host

/--
The command ends before it comes to the image, or else there is no element of the name that is
created, or the element of the clone has been written as its object is.
-/
def Harmless (f : AssemblyFactory) (host : Host) : FactoryCommand → Prop
  | .create name source =>
      host.tdl = false ∨ host.jeosXml = false ∨ f.got name = none ∨
        f.got (AssemblyFactory.jeosOf source) = none ∨ f.find name = none
  | .clone source dest =>
      (∀ original, f.got source = some original → original.attrs.uuid = []) ∨
        host.cleanXml = false ∨ ∀ o, f.got dest = some o → f.AlreadySaved o

/-- A command that fails leaves the document as it was exactly when it is harmless. -/
theorem failed_command_keeps_iff {f : AssemblyFactory} {host : Host} {command : FactoryCommand}
    (h : command.Fails f host) : f.DocKept (command.exec f host) ↔ command.Harmless f host := by
  cases command with
  | create name source => exact AssemblyFactory.docKept_create_iff h.stops
  | clone source dest => exact AssemblyFactory.docKept_clone_iff h.stops

def loadedFactory : AssemblyFactory :=
  (Pcloudsh.oneAssembly.start ⟨true, true⟩ ⟨true, true⟩).assemblies

def imageHost : Host := { Pcloudsh.wellEquipped with cloneFrom := .imageExists }

theorem failed_command_keeps_iff_web :
    loadedFactory.DocKept
      ((create "web".toList "F16-x86_64".toList).exec loadedFactory imageHost) := by
  have hfails : (create "web".toList "F16-x86_64".toList).Fails loadedFactory imageHost :=
    ⟨by decide +kernel, .inr (.inr rfl)⟩
  have hnone : loadedFactory.find "web".toList = none := by decide +kernel
  exact (failed_command_keeps_iff hfails).mpr (.inr (.inr (.inr (.inr hnone))))

/--
Creating an assembly that exists deletes its element, and a clone to an image that exists is
entered in the document.
-/
theorem image_exists_changes_doc :
    (create "db".toList "F16-x86_64".toList).Fails loadedFactory imageHost ∧
    (clone "db".toList "web".toList).Fails loadedFactory imageHost ∧
    loadedFactory.doc.map DbNode.name = ["db".toList] ∧
    (((create "db".toList "F16-x86_64".toList).exec loadedFactory imageHost).map
      (·.doc.map DbNode.name)) = .ok [] ∧
    (((clone "db".toList "web".toList).exec loadedFactory imageHost).map
      (·.doc.map DbNode.name)) = .ok ["db".toList, "web".toList] := by
  refine ⟨⟨?_, .inr (.inr rfl)⟩, ⟨?_, .inr rfl⟩, ?_⟩
  all_goals decide +kernel

end FactoryCommand

end PacemakerCloud
