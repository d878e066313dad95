import PacemakerCloud.Foundation.Node

/-!
# Replies of OpenStack

The write callbacks of `openstackv1.c`, applied to the root of the document that
`xmlReadMemory` makes of the bytes it is given, if it makes one.  The three nested
loops of `instance_state_get_curl_callback` share one cursor: an inner loop that
finds nothing leaves the null pointer to the outer one.
-/

namespace PacemakerCloud

open Foundation

inductive CompletionCall where
  | imageId (id : CString)
  | instanceId (id : CString)
  | instanceState (status : CString) (address : Option CString)
  deriving DecidableEq, Repr

def CompletionCall.instanceState? : CompletionCall → Option (CString × Option CString)
  | .instanceState status address => some (status, address)
  | .imageId _ | .instanceId _ => none

/-! ## The callbacks -/

def visitImage (imageName : CString) (node : Node) :
    Except NodeFault (Visit (Option CString)) :=
  if node.isElement then
    match node.prop "name" with
    | none => .error .nullString
    | some name =>
        if name = imageName then .ok (.done (node.prop "id")) else .ok .next
  else .ok .next

def imageIdGetCallback (imageName : CString) (root : Option Node) :
    Except NodeFault (List CompletionCall) :=
  match root with
  | none => .error .nullNode
  | some root =>
      match forSiblings (visitImage imageName) root.children with
      | .error fault => .error fault
      | .ok found => .ok (found.join.map .imageId).toList

def instanceCreateCallback (root : Option Node) : Except NodeFault (List CompletionCall) :=
  .ok ((root.bind (·.prop "id")).map .instanceId).toList

-- The bodies of the nested loops, the innermost first.
def visitIp : Node → Except NodeFault (Visit (Option CString)) :=
  onNamed "ip" fun node => .ok (.done (node.prop "addr"))

def visitPrivate : Node → Except NodeFault (Visit (Option CString)) :=
  onNamed "private" (visitInside visitIp)

def visitAddresses : Node → Except NodeFault (Visit (Option CString)) :=
  onNamed "addresses" fun node =>
    if node.children.isEmpty then .ok .next else visitInside visitPrivate node

def activeStatus : CString := "ACTIVE".toList

def instanceStateGetCallback (root : Option Node) :
    Except NodeFault (List CompletionCall) :=
  match root with
  | none => .error .nullString
  | some root =>
      match root.prop "status" with
      | none => .error .nullString
      | some status =>
          if status = activeStatus then
            match forSiblings visitAddresses root.children with
            | .error fault => .error fault
            | .ok found => .ok [.instanceState status found.join]
          else .ok [.instanceState status none]

/-! ## What the loops find -/

theorem visitIp_found_iff {nodes : List Node} {addr : Option CString} :
    forSiblings visitIp nodes = .ok (some addr) ↔
      ∃ ip, FirstNamed "ip" nodes ip ∧ ip.prop "addr" = addr := by
  rw [visitIp, forSiblings_onNamed_iff (by simp)]
  simp

theorem visitPrivate_found_iff {nodes : List Node} {addr : Option CString} :
    forSiblings visitPrivate nodes = .ok (some addr) ↔
      ∃ priv ip, FirstNamed "private" nodes priv ∧ FirstNamed "ip" priv.children ip ∧
        ip.prop "addr" = addr := by
  rw [visitPrivate, forSiblings_onNamed_iff fun _ => visitInside_ne_next]
  simp only [visitInside_eq_done, visitIp_found_iff, exists_and_left]

def FirstAddresses (root addresses : Node) : Prop :=
  ∃ before after, root.children = before ++ addresses :: after ∧
    (∀ n ∈ before, n.name ≠ none ∧
      (n.name = some "addresses".toList → n.children = [])) ∧
    addresses.name = some "addresses".toList ∧ addresses.children ≠ []

def ReachesIp (root : Node) (ip : Node) : Prop :=
  ∃ addresses priv, FirstAddresses root addresses ∧
    FirstNamed "private" addresses.children priv ∧ FirstNamed "ip" priv.children ip

theorem visitAddresses_eq_next {n : Node} :
    visitAddresses n = .ok .next ↔
      n.name ≠ none ∧ (n.name = some "addresses".toList → n.children = []) := by
  rw [visitAddresses, onNamed_eq_next]
  cases n.children with
  | nil => simp
  | cons first rest => simp [visitInside_ne_next]

theorem visitAddresses_found_iff {root : Node} {addr : Option CString} :
    forSiblings visitAddresses root.children = .ok (some addr) ↔
      ∃ ip, ReachesIp root ip ∧ ip.prop "addr" = addr := by
  have hdone : ∀ n : Node, visitAddresses n = .ok (.done addr) ↔
      n.name = some "addresses".toList ∧ n.children ≠ [] ∧
        ∃ priv ip, FirstNamed "private" n.children priv ∧ FirstNamed "ip" priv.children ip ∧
          ip.prop "addr" = addr := by
    intro n
    rw [visitAddresses, onNamed_eq_done, ← visitPrivate_found_iff, ← visitInside_eq_done]
    cases n.children with
    | nil => simp
    | cons first rest => simp
  simp only [forSiblings_eq_some_iff, visitAddresses_eq_next, hdone]
  constructor
  · rintro ⟨before, addresses, after, hroot, hbefore, hname, hne, priv, ip, hpriv, hip, haddr⟩
    exact ⟨ip, ⟨addresses, priv, ⟨before, after, hroot, hbefore, hname, hne⟩, hpriv, hip⟩,
      haddr⟩
  · rintro ⟨ip, ⟨addresses, priv, ⟨before, after, hroot, hbefore, hname, hne⟩, hpriv, hip⟩,
      haddr⟩
    exact ⟨before, addresses, after, hroot, hbefore, hname, hne, priv, ip, hpriv, hip, haddr⟩

/-! ## The traversal -/

def privateIps (root : Node) : List Node :=
  (root.children.filter (·.named "addresses")).flatMap fun addresses =>
    (addresses.children.filter (·.named "private")).flatMap fun priv =>
      priv.children.filter (·.named "ip")

theorem ReachesIp.head?_privateIps {root ip : Node} {addr : CString} (h : ReachesIp root ip)
    (haddr : ip.prop "addr" = some addr) : (privateIps root).head? = some ip := by
  obtain ⟨addresses, priv, ⟨before, after, hroot, hbefore, hname, hne⟩, hpriv, hip⟩ := h
  have hpriv' := Node.named_of_children hpriv.name_eq hip.ne_nil
  have hip' := Node.named_of_prop hip.name_eq haddr
  have hinner : ((priv.children.filter (·.named "ip")).flatMap fun n => [n]).head? = some ip :=
    hip.head?_flatMap hip' rfl
  rw [List.flatMap_singleton'] at hinner
  rw [privateIps, hroot]
  refine head?_flatMap_filter (fun n hn hn' => ?_) (Node.named_of_children hname hne) ?_
  · simp [(hbefore n hn).2 (Node.name_of_named hn')]
  · exact hpriv.head?_flatMap hpriv' hinner

/--
The callback ends without following a missing node, an active server's first `ip` is the
one whose address is handed on, and no active server goes without an address.
-/
structure TraversedCorrectly (root : Node) : Prop where
  total : ∃ calls, instanceStateGetCallback (some root) = .ok calls
  first : root.prop "status" = some activeStatus →
    ∀ ip, (privateIps root).head? = some ip →
      instanceStateGetCallback (some root) =
        .ok [.instanceState activeStatus (ip.prop "addr")]
  address : ∀ calls, instanceStateGetCallback (some root) = .ok calls →
    .instanceState activeStatus none ∉ calls

theorem instanceStateGetCallback_of_active {root : Node}
    (h : root.prop "status" = some activeStatus) {calls : List CompletionCall} :
    instanceStateGetCallback (some root) = .ok calls ↔
      ∃ found, forSiblings visitAddresses root.children = .ok found ∧
        calls = [.instanceState activeStatus found.join] := by
  simp only [instanceStateGetCallback, h, if_true]
  cases forSiblings visitAddresses root.children with
  | error fault => simp
  | ok found => simp [eq_comm]

theorem traversedCorrectly_of_inactive {root : Node} {status : CString}
    (h : root.prop "status" = some status) (hactive : status ≠ activeStatus) :
    TraversedCorrectly root := by
  have hcallback : instanceStateGetCallback (some root) = .ok [.instanceState status none] := by
    simp only [instanceStateGetCallback, h, if_neg hactive]
  constructor
  case total => exact ⟨_, hcallback⟩
  case first =>
    intro hactive'
    rw [h, Option.some_inj] at hactive'
    exact absurd hactive' hactive
  case address =>
    intro calls hcalls
    rw [hcallback] at hcalls
    cases hcalls
    simp [Ne.symm hactive]

theorem traversedCorrectly_of_reachesIp {root ip : Node} {addr : CString}
    (h : root.prop "status" = some activeStatus) (hip : ReachesIp root ip)
    (haddr : ip.prop "addr" = some addr) : TraversedCorrectly root := by
  have hcallback : instanceStateGetCallback (some root) =
      .ok [.instanceState activeStatus (some addr)] :=
    (instanceStateGetCallback_of_active h).mpr
      ⟨_, visitAddresses_found_iff.mpr ⟨ip, hip, haddr⟩, rfl⟩
  constructor
  case total => exact ⟨_, hcallback⟩
  case first =>
    intro _ ip' hip'
    rw [hip.head?_privateIps haddr] at hip'
    cases hip'
    rw [hcallback, haddr]
  case address =>
    intro calls hcalls
    rw [hcallback] at hcalls
    cases hcalls
    simp

theorem exists_reachesIp_of_traversedCorrectly {root : Node}
    (h : root.prop "status" = some activeStatus) (hcorrect : TraversedCorrectly root) :
    ∃ ip addr, ReachesIp root ip ∧ ip.prop "addr" = some addr := by
  obtain ⟨calls, hcalls⟩ := hcorrect.total
  have haddress := hcorrect.address calls hcalls
  obtain ⟨found, hfound, rfl⟩ := (instanceStateGetCallback_of_active h).mp hcalls
  match found with
  | none => simp at haddress
  | some none => simp at haddress
  | some (some addr) =>
      obtain ⟨ip, hip, haddr⟩ := visitAddresses_found_iff.mp hfound
      exact ⟨ip, addr, hip, haddr⟩

/--
The reply is traversed correctly exactly when the server is not active, or the first
`addresses` with children has a `private` child, the first of these has an `ip` child,
and the first of those has an address; no CDATA section may stand before any of them.
-/
theorem server_reply_traversed_iff {root : Node} {status : CString}
    (h : root.prop "status" = some status) :
    TraversedCorrectly root ↔
      status ≠ activeStatus ∨ ∃ ip addr, ReachesIp root ip ∧ ip.prop "addr" = some addr := by
  by_cases hactive : status = activeStatus
  · subst hactive
    simp only [ne_eq, not_true_eq_false, false_or]
    constructor
    · exact exists_reachesIp_of_traversedCorrectly h
    · rintro ⟨ip, addr, hip, haddr⟩
      exact traversedCorrectly_of_reachesIp h hip haddr
  · exact iff_of_true (traversedCorrectly_of_inactive h hactive) (.inl hactive)

def activeServer (networks : List Node) : Node :=
  .element "server".toList [("id".toList, "1".toList), ("status".toList, activeStatus)]
    [.element "addresses".toList [] networks]

def publicNetwork : Node :=
  .element "public".toList []
    [.element "ip".toList [("version".toList, "4".toList), ("addr".toList, "67.23.10.132".toList)]
      []]

def privateIp : Node :=
  .element "ip".toList [("version".toList, "4".toList), ("addr".toList, "10.0.0.2".toList)] []

def privateNetwork (ips : List Node) : Node := .element "private".toList [] ips

theorem server_reply_traversed_iff_private :
    TraversedCorrectly (activeServer [publicNetwork, privateNetwork [privateIp]]) := by
  have hstatus : (activeServer [publicNetwork, privateNetwork [privateIp]]).prop "status" =
      some activeStatus := by
    decide +kernel
  apply (server_reply_traversed_iff hstatus).mpr
  refine .inr ⟨privateIp, "10.0.0.2".toList, ⟨_, privateNetwork [privateIp],
    ⟨[], [], rfl, by simp, rfl, by simp [Node.children]⟩,
    ⟨[publicNetwork], [], rfl, ?_, rfl⟩, ⟨[], [], rfl, by simp, rfl⟩⟩, by decide +kernel⟩
  rw [List.forall_mem_singleton]
  decide +kernel

/--
A server that has no private network yet, one whose private network is empty, and one
that has no addresses at all.
-/
theorem active_server_without_private :
    instanceStateGetCallback (some (activeServer [publicNetwork])) = .error .nullNode ∧
    instanceStateGetCallback (some (activeServer [privateNetwork [], publicNetwork])) =
      .error .nullNode ∧
    instanceStateGetCallback (some (activeServer [])) =
      .ok [.instanceState activeStatus none] := by
  decide +kernel

/-! ## The delivery of a reply -/

inductive CloudRequest where
  | imageIdGet (imageName : CString)
  | instanceCreateFromImageId
  | instanceStateGet
  deriving DecidableEq, Repr

def CloudRequest.callback : CloudRequest → Option Node →
    Except NodeFault (List CompletionCall)
  | .imageIdGet imageName => imageIdGetCallback imageName
  | .instanceCreateFromImageId => instanceCreateCallback
  | .instanceStateGet => instanceStateGetCallback

def CloudRequest.reported (request : CloudRequest) (root : Option Node) :
    List CompletionCall :=
  match request.callback root with
  | .error _ => []
  | .ok calls => calls

def FirstImage (imageName : CString) (root image : Node) : Prop :=
  ∃ before after, root.children = before ++ image :: after ∧
    (∀ n ∈ before, n.isElement = true → ∃ name, n.prop "name" = some name ∧ name ≠ imageName) ∧
    image.isElement = true ∧ image.prop "name" = some imageName

/--
The document says what is asked for.  An active server reports its state with the address that
the cursor reaches, or without one if it comes to no `addresses` with children.
-/
def CloudRequest.Answers (root : Node) : CloudRequest → Prop
  | .imageIdGet imageName =>
      ∃ image id, FirstImage imageName root image ∧ image.prop "id" = some id
  | .instanceCreateFromImageId => ∃ id, root.prop "id" = some id
  | .instanceStateGet =>
      ∃ status, root.prop "status" = some status ∧
        (status = activeStatus → (∃ ip, ReachesIp root ip) ∨
          ∀ n ∈ root.children,
            n.name ≠ none ∧ (n.name = some "addresses".toList → n.children = []))

theorem visitImage_found_iff {imageName : CString} {root : Node} {id : Option CString} :
    forSiblings (visitImage imageName) root.children = .ok (some id) ↔
      ∃ image, FirstImage imageName root image ∧ image.prop "id" = id := by
  have hnext : ∀ n : Node, visitImage imageName n = .ok .next ↔
      (n.isElement = true → ∃ name, n.prop "name" = some name ∧ name ≠ imageName) := by
    intro n
    unfold visitImage
    cases n.isElement <;> cases n.prop "name" <;> simp
  have hdone : ∀ n : Node, visitImage imageName n = .ok (.done id) ↔
      n.isElement = true ∧ n.prop "name" = some imageName ∧ n.prop "id" = id := by
    intro n
    unfold visitImage
    cases n.isElement with
    | false => simp
    | true =>
        cases n.prop "name" with
        | none => simp
        | some name => by_cases hname : name = imageName <;> simp [hname]
  simp only [forSiblings_eq_some_iff, hnext, hdone]
  constructor
  · rintro ⟨before, image, after, hroot, hbefore, himage, hname, hid⟩
    exact ⟨image, ⟨before, after, hroot, hbefore, himage, hname⟩, hid⟩
  · rintro ⟨image, ⟨before, after, hroot, hbefore, himage, hname⟩, hid⟩
    exact ⟨before, image, after, hroot, hbefore, himage, hname, hid⟩

theorem visitAddresses_ok_iff {root : Node} :
    (∃ found, forSiblings visitAddresses root.children = .ok found) ↔
      (∃ ip, ReachesIp root ip) ∨ ∀ n ∈ root.children,
        n.name ≠ none ∧ (n.name = some "addresses".toList → n.children = []) := by
  simp only [← visitAddresses_eq_next, ← forSiblings_eq_none_iff]
  constructor
  · rintro ⟨_ | addr, hfound⟩
    · exact .inr hfound
    · obtain ⟨ip, hip, -⟩ := visitAddresses_found_iff.mp hfound
      exact .inl ⟨ip, hip⟩
  · rintro (⟨ip, hip⟩ | hnone)
    · exact ⟨_, visitAddresses_found_iff.mpr ⟨ip, hip, rfl⟩⟩
    · exact ⟨none, hnone⟩

theorem CloudRequest.reported_ne_nil_iff {request : CloudRequest} {root : Node} :
    request.reported (some root) ≠ [] ↔ request.Answers root := by
  cases request with
  | imageIdGet imageName =>
      have hanswers : Answers root (.imageIdGet imageName) ↔
          ∃ id, forSiblings (visitImage imageName) root.children = .ok (some (some id)) := by
        simp only [visitImage_found_iff, Answers]
        exact exists_comm
      rw [hanswers]
      simp only [reported, callback, imageIdGetCallback]
      rcases forSiblings (visitImage imageName) root.children with fault | _ | _ | id <;> simp
  | instanceCreateFromImageId =>
      simp only [reported, callback, instanceCreateCallback, Answers, Option.bind_some]
      cases root.prop "id" <;> simp
  | instanceStateGet =>
      simp only [reported, callback, instanceStateGetCallback, Answers, ← visitAddresses_ok_iff]
      cases root.prop "status" with
      | none => simp
      | some status =>
          by_cases hactive : status = activeStatus
          · rcases forSiblings visitAddresses root.children with fault | found <;> simp [hactive]
          · simp [hactive]

section

variable (parse : CString → Option Node)

/--
`curl_easy_perform`: the chunks are written in order, and the transfer is aborted when
the callback does not return the size of its chunk.  Every callback returns zero.
-/
def CloudRequest.perform (request : CloudRequest) :
    List CString → Except NodeFault Unit × List CompletionCall
  | [] => (.ok (), [])
  | chunk :: rest =>
      match request.callback (parse chunk) with
      | .error fault => (.error fault, [])
      | .ok calls =>
          if 0 = chunk.length then
            ((request.perform rest).1, calls ++ (request.perform rest).2)
          else (.ok (), calls)

structure Partition (body : CString) (chunks : List CString) : Prop where
  flatten_eq : chunks.flatten = body
  nonempty : ∀ chunk ∈ chunks, chunk ≠ []

/-- `xmlReadMemory` fails on a proper prefix of a document. -/
def FailsOnProperPart : Prop :=
  ∀ body, (parse body).isSome → ∀ text, text <+: body → text ≠ body → parse text = none

variable {parse}

theorem CloudRequest.reported_none (request : CloudRequest) : request.reported none = [] := by
  cases request <;> rfl

theorem CloudRequest.reported_eq_nil_iff (request : CloudRequest) {root : Option Node} :
    request.reported root = [] ↔ ∀ document, root = some document → ¬request.Answers document := by
  cases root with
  | none => simp [request.reported_none]
  | some document => simp [← reported_ne_nil_iff]

theorem CloudRequest.perform_cons (request : CloudRequest) {chunk : CString}
    {rest : List CString} (h : chunk ≠ []) :
    (request.perform parse (chunk :: rest)).2 = request.reported (parse chunk) := by
  have hlen : 0 ≠ chunk.length := (List.length_pos_of_ne_nil h).ne
  rw [perform, reported]
  cases request.callback (parse chunk) with
  | error fault => rfl
  | ok calls => simp only [if_neg hlen]

theorem exists_partition {body text : CString} (hpart : text <+: body) (htext : text ≠ []) :
    ∃ rest, Partition body (text :: rest) := by
  obtain ⟨rest, rfl⟩ := hpart
  by_cases hrest : rest = []
  · exact ⟨[], by simp [hrest], by simpa using htext⟩
  · exact ⟨[rest], by simp, by simp [htext, hrest]⟩

theorem Partition.eq_nil {chunks : List CString} (h : Partition [] chunks) : chunks = [] := by
  cases chunks with
  | nil => rfl
  | cons chunk rest =>
      obtain ⟨hchunk, -⟩ := List.append_eq_nil_iff.mp (List.flatten_cons ▸ h.flatten_eq)
      exact absurd hchunk (h.nonempty chunk (.head _))

theorem Partition.exists_reported {body : CString} {chunks : List CString}
    (h : Partition body chunks) (hbody : body ≠ []) (request : CloudRequest) :
    ∃ text, text <+: body ∧ text ≠ [] ∧
      (request.perform parse chunks).2 = request.reported (parse text) := by
  cases chunks with
  | nil => exact absurd h.flatten_eq.symm hbody
  | cons chunk rest =>
      have hchunk := h.nonempty chunk (.head _)
      exact ⟨chunk, ⟨rest.flatten, h.flatten_eq⟩, hchunk, request.perform_cons hchunk⟩

/-- The calls of the completion function are the same for every delivery of the body. -/
def DeliveredAlike (parse : CString → Option Node) (request : CloudRequest) (body : CString) :
    Prop :=
  ∀ p q, Partition body p → Partition body q →
    (request.perform parse p).2 = (request.perform parse q).2

theorem deliveredAlike_iff_reported {request : CloudRequest} {body : CString} :
    DeliveredAlike parse request body ↔
      ∀ text text', text <+: body → text ≠ [] → text' <+: body → text' ≠ [] →
        request.reported (parse text) = request.reported (parse text') := by
  constructor
  · intro h text text' hpart htext hpart' htext'
    obtain ⟨rest, hp⟩ := exists_partition hpart htext
    obtain ⟨rest', hq⟩ := exists_partition hpart' htext'
    rw [← request.perform_cons htext, ← request.perform_cons htext']
    exact h _ _ hp hq
  · intro h p q hp hq
    by_cases hbody : body = []
    · subst hbody
      rw [hp.eq_nil, hq.eq_nil]
    · obtain ⟨text, hpart, htext, hcalls⟩ := hp.exists_reported hbody request
      obtain ⟨text', hpart', htext', hcalls'⟩ := hq.exists_reported hbody request
      rw [hcalls, hcalls']
      exact h text text' hpart htext hpart' htext'

/--
The reply is independent of its packetisation exactly when it has at most one byte, or no part
of it that can arrive first is a document that says what is asked for.
-/
theorem delivered_alike_iff (hparse : FailsOnProperPart parse) (request : CloudRequest)
    (body : CString) :
    DeliveredAlike parse request body ↔
      body.length ≤ 1 ∨
        ∀ text, text <+: body → text ≠ [] → ∀ root, parse text = some root →
          ¬request.Answers root := by
  rw [deliveredAlike_iff_reported]
  simp only [← request.reported_eq_nil_iff]
  constructor
  · intro h
    by_cases hlen : body.length ≤ 1
    · exact .inl hlen
    right
    intro text hpart htext
    -- The first byte alone is no document: nothing is reported of it, nor of the rest.
    have hfirst : body.take 1 ≠ [] ∧ body.take 1 ≠ body := by
      constructor
      all_goals
        intro heq
        have hlen' := congrArg List.length heq
        simp only [List.length_take, List.length_nil] at hlen'
        omega
    have hbody : body ≠ [] := by
      rintro rfl
      exact hlen (by simp)
    rw [h text body hpart htext List.prefix_rfl hbody]
    cases hdoc : parse body with
    | none => exact request.reported_none
    | some root =>
        have hnone : parse (body.take 1) = none :=
          hparse body (by simp [hdoc]) _ (List.take_prefix 1 body) hfirst.2
        rw [← hdoc, h body _ List.prefix_rfl hbody (List.take_prefix 1 body) hfirst.1, hnone]
        exact request.reported_none
  · rintro (hlen | hnothing) text text' hpart htext hpart' htext'
    · have hwhole : ∀ text, text <+: body → text ≠ [] → text = body := by
        intro text hpart htext
        have hpos := List.length_pos_of_ne_nil htext
        exact hpart.eq_of_length_le (by omega)
      rw [hwhole text hpart htext, hwhole text' hpart' htext']
    · rw [hnothing text hpart htext, hnothing text' hpart' htext']

end

def parseOnly (body : CString) (root : Node) (text : CString) : Option Node :=
  if text = body then some root else none

theorem parseOnly_failsOnProperPart (body : CString) (root : Node) :
    FailsOnProperPart (parseOnly body root) := by
  intro body' hbody' text _ hne
  have heq : body' = body := by
    by_contra hother
    simp [parseOnly, hother] at hbody'
  rw [parseOnly, if_neg (heq ▸ hne)]

theorem delivered_alike_iff_no_id :
    DeliveredAlike (parseOnly "<server/>".toList (.element "server".toList [] []))
      .instanceCreateFromImageId "<server/>".toList := by
  apply (delivered_alike_iff (parseOnly_failsOnProperPart _ _) _ _).mpr
  right
  intro text _ _ root hroot
  unfold parseOnly at hroot
  split at hroot
  · obtain rfl := Option.some.inj hroot
    rintro ⟨id, hid⟩
    cases hid
  · cases hroot

def replyHead : CString := "<server id=\"1\" status=\"ACTIVE\">".toList

def replyTail : CString :=
  "<addresses><private><ip version=\"4\" addr=\"10.0.0.2\"/></private></addresses></server>".toList

def serverReply : CString := replyHead ++ replyTail

/-- Of a reply that arrives in two chunks nothing is reported, or the process dies. -/
theorem split_reply_unreported :
    let parse := parseOnly serverReply (activeServer [privateNetwork [privateIp]])
    FailsOnProperPart parse ∧
    Partition serverReply [serverReply] ∧ Partition serverReply [replyHead, replyTail] ∧
    CloudRequest.instanceCreateFromImageId.perform parse [serverReply] =
      (.ok (), [.instanceId "1".toList]) ∧
    CloudRequest.instanceCreateFromImageId.perform parse [replyHead, replyTail] = (.ok (), []) ∧
    CloudRequest.instanceStateGet.perform parse [serverReply] =
      (.ok (), [.instanceState activeStatus (some "10.0.0.2".toList)]) ∧
    CloudRequest.instanceStateGet.perform parse [replyHead, replyTail] =
      (.error .nullString, []) := by
  refine ⟨parseOnly_failsOnProperPart _ _, ⟨?_, ?_⟩, ⟨?_, ?_⟩, ?_⟩
  all_goals decide +kernel

end PacemakerCloud
