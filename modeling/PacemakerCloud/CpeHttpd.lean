import PacemakerCloud.Foundation.Node
import PacemakerCloud.Foundation.Run

/-!
# The HTTP interface of the policy engine

`handle_event` and `answer_to_connection` of `cpe_httpd.cpp`.  What the push parser
makes of the data is an input: for a chunk the error it complains about, at the end the
error of a document that is not well formed or else its root.  Memory never runs out,
and the value that `send_page` returns is not part of the model.
-/

namespace PacemakerCloud.CpeHttpd

open Foundation

/-! ## Events -/

def visitItem (item : Option Node) (node : Node) : Option Node :=
  if node.isElement then
    if node.named "datetime" then item else some node
  else item

def eventState : List Node → Except NodeFault (Option CString)
  | [] => .error .nullNode
  | .text content :: _ => .ok (some content)
  | _ :: _ => .ok none

def visitState (node : Node) : Except NodeFault (Visit (Option CString)) :=
  if node.isElement then
    if node.named "state" then (eventState node.children).map .done else .ok .next
  else .ok .next

def handleEvent (event : Node) : Except NodeFault Bool :=
  match event.children.foldl visitItem none with
  | none => .error .nullNode
  | some item =>
      match forSiblings visitState item.children with
      | .error fault => .error fault
      | .ok state =>
          if (item.prop "id").isSome ∧ state.join.isSome then
            if item.named "deployment" then .ok true
            else if item.named "instance" then .ok true
            else .ok false
          else .ok false

/-! ## Connections -/

inductive ConnectionType where
  | get
  | post
  deriving DecidableEq, Repr

/-- `struct connection_info_struct`, without the parser. -/
structure ConnectionInfo where
  type : ConnectionType
  answerstring : Option CString
  deriving DecidableEq, Repr

inductive Reaction where
  /-- `MHD_YES` is returned: the library calls again. -/
  | awaits
  | sends (page : CString) (mimetype : Option String) (statusCode : Nat)
  deriving DecidableEq, Repr

inductive Upload where
  /-- `*size` is not zero, and the parser complains or not. -/
  | chunk (error : Option CString)
  /-- `*size` is zero. -/
  | complete (parsed : Except CString Node)

def apiUrl : CString := "/pacemaker-cloud/api".toList

def listPage : CString := "<deployments>todo</deployments>".toList

def clientErrorpage (message : CString) : CString :=
  "<html><body>Invalid input [".toList ++ message ++ "]</body></html>".toList

def serverErrorpage (message : CString) : CString :=
  "<html><body>Server error [".toList ++ message ++ "]</body></html>".toList

def okStatus : Nat := 200
def badRequestStatus : Nat := 400
def notFoundStatus : Nat := 404
def internalServerErrorStatus : Nat := 500

def badRequest (con : ConnectionInfo) (answer : CString) : ConnectionInfo × Reaction :=
  ({ con with answerstring := some answer }, .sends answer none badRequestStatus)

/-- The branch of `answer_to_connection` for a POST. -/
def answerToPost (con : ConnectionInfo) :
    Upload → Except NodeFault (ConnectionInfo × Reaction)
  | .chunk none => .ok (con, .awaits)
  | .chunk (some message) => .ok (badRequest con (clientErrorpage message))
  | .complete (.error message) => .ok (badRequest con (clientErrorpage message))
  | .complete (.ok event) =>
      match handleEvent event, con.answerstring with
      | .error fault, _ => .error fault
      | .ok true, _ => .ok (con, .sends [] (some "application/xml") okStatus)
      | .ok false, none =>
          let answer := serverErrorpage "unknown".toList
          .ok ({ con with answerstring := some answer },
            .sends answer none internalServerErrorStatus)
      | .ok false, some answer => .ok (badRequest con answer)

def answerToConnection (url method : CString) (con : Option ConnectionInfo)
    (upload : Upload) : Except NodeFault (Option ConnectionInfo × Reaction) :=
  if ¬ apiUrl <+: url then
    .ok (con, .sends "Not Found".toList none notFoundStatus)
  else
    match con with
    | none =>
        let type := if method = "POST".toList then .post else .get
        .ok (some ⟨type, none⟩, .awaits)
    | some con =>
        if method = "GET".toList then
          .ok (some con, .sends listPage (some "application/xml") okStatus)
        else if method = "POST".toList then
          match answerToPost con upload with
          | .error fault => .error fault
          | .ok (con, reaction) => .ok (some con, reaction)
        else .ok (some con, .sends "bad request".toList none badRequestStatus)

structure Connection where
  info : Option ConnectionInfo
  reactions : List Reaction
  deriving DecidableEq, Repr

def Connection.call (url method : CString) (c : Connection) (upload : Upload) :
    Except NodeFault Connection :=
  match answerToConnection url method c.info upload with
  | .error fault => .error fault
  | .ok (info, reaction) => .ok ⟨info, c.reactions ++ [reaction]⟩

/--
A document is posted in chunks; the first call comes without data, as the last does.
A document can be well formed and still be complained about, for its namespaces.
-/
def post (url : CString) (complaints : List (Option CString)) (event : Node) :
    Except NodeFault Connection :=
  run (Connection.call url "POST".toList) ⟨none, []⟩
    ([.complete (.ok event)] ++ complaints.map .chunk ++ [.complete (.ok event)])

/-! ## What `handle_event` returns -/

def lastItem (event : Node) : Option Node :=
  (event.children.filter fun node => node.isElement && !node.named "datetime").getLast?

def firstState (item : Node) : Option Node := item.children.find? (·.named "state")

def IsEventItem (item : Node) : Prop :=
  (item.named "deployment" ∨ item.named "instance") ∧ (item.prop "id").isSome

instance (item : Node) : Decidable (IsEventItem item) := inferInstanceAs (Decidable (_ ∧ _))

theorem foldl_visitItem (event : Node) :
    event.children.foldl visitItem none = lastItem event := by
  have hvisit : visitItem = fun last node =>
      if node.isElement && !node.named "datetime" then some node else last := by
    funext last node
    unfold visitItem
    cases node.isElement <;> cases node.named "datetime" <;> rfl
  rw [hvisit, foldl_last, Option.or_none, lastItem]

theorem forSiblings_visitState (item : Node) :
    forSiblings visitState item.children =
      match firstState item with
      | none => .ok none
      | some state => (eventState state.children).map some := by
  apply forSiblings_eq_find?
  · intro node hnode
    simp [visitState, hnode]
  · intro node hnode
    simp [visitState, hnode, Node.isElement_of_named hnode]

theorem eventState_cons (first : Node) (rest : List Node) :
    ∃ state, eventState (first :: rest) = .ok state ∧ state.isSome = first.isText := by
  cases first with
  | text content => exact ⟨_, rfl, rfl⟩
  | element | cdata | comment | pi | entityRef => exact ⟨_, rfl, rfl⟩

theorem handleEvent_of_none {event : Node} (h : lastItem event = none) :
    handleEvent event = .error .nullNode := by
  rw [handleEvent, foldl_visitItem, h]

theorem handleEvent_of_no_state {event item : Node} (h : lastItem event = some item)
    (hstate : firstState item = none) : handleEvent event = .ok false := by
  simp [handleEvent, foldl_visitItem, h, forSiblings_visitState, hstate]

theorem handleEvent_of_empty {event item state : Node} (h : lastItem event = some item)
    (hstate : firstState item = some state) (hempty : state.children = []) :
    handleEvent event = .error .nullNode := by
  simp [handleEvent, foldl_visitItem, h, forSiblings_visitState, hstate, hempty, eventState,
    Except.map]

theorem handleEvent_of_state {event item state first : Node} {rest : List Node}
    (h : lastItem event = some item) (hstate : firstState item = some state)
    (hchildren : state.children = first :: rest) :
    handleEvent event = .ok (decide (IsEventItem item) && first.isText) := by
  obtain ⟨text, htext, hsome⟩ := eventState_cons first rest
  simp only [handleEvent, foldl_visitItem, h, forSiblings_visitState, hstate, hchildren, htext,
    Except.map, Option.join_some, hsome]
  cases hid : (item.prop "id").isSome <;> cases first.isText <;>
    cases hdeployment : item.named "deployment" <;> cases hinstance : item.named "instance" <;>
    simp [IsEventItem, hid, hdeployment, hinstance]

/-! ## The answer to an event -/

def Acceptable (event : Node) : Prop :=
  ∃ item state, lastItem event = some item ∧ IsEventItem item ∧
    firstState item = some state ∧ state.children.any (·.isCharacterData) = true

def Responds (url : CString) (complaints : List (Option CString)) (event : Node)
    (statusCode : Nat) : Prop :=
  ∃ info reactions page mimetype, post url complaints event =
    .ok ⟨info, reactions ++ [.sends page mimetype statusCode]⟩

structure Answered (event : Node) : Prop where
  total : ∃ ok, handleEvent event = .ok ok
  accepts : handleEvent event = .ok true ↔ Acceptable event
  responds : ∀ url complaints, apiUrl <+: url →
    ∃ statusCode, Responds url complaints event statusCode ∧
      (Acceptable event → statusCode = okStatus) ∧ (¬ Acceptable event → 400 ≤ statusCode)

theorem answerToPost_complete (info : ConnectionInfo) {event : Node} {ok : Bool}
    (h : handleEvent event = .ok ok) :
    ∃ info' page mimetype statusCode,
      answerToPost info (.complete (.ok event)) = .ok (info', .sends page mimetype statusCode) ∧
      (ok = true → statusCode = okStatus) ∧ (ok = false → 400 ≤ statusCode) := by
  unfold answerToPost
  match ok, info.answerstring with
  | true, _ =>
      simp only [h]
      exact ⟨_, _, _, _, rfl, fun _ => rfl, nofun⟩
  | false, none =>
      simp only [h]
      exact ⟨_, _, _, _, rfl, nofun, fun _ => by decide⟩
  | false, some answer =>
      simp only [h]
      exact ⟨_, _, _, _, rfl, nofun, fun _ => by decide⟩

section

variable {url : CString} (hurl : apiUrl <+: url)

include hurl

theorem call_of_none (upload : Upload) :
    Connection.call url "POST".toList ⟨none, []⟩ upload =
      .ok ⟨some ⟨.post, none⟩, [.awaits]⟩ := by
  simp [Connection.call, answerToConnection, hurl]

theorem call_of_post {c : Connection} {info info' : ConnectionInfo} {reaction : Reaction}
    {upload : Upload} (hc : c.info = some info)
    (h : answerToPost info upload = .ok (info', reaction)) :
    c.call url "POST".toList upload = .ok ⟨some info', c.reactions ++ [reaction]⟩ := by
  have hget : "POST".toList ≠ "GET".toList := by decide
  simp only [Connection.call, answerToConnection, hc, hurl, not_true_eq_false, if_false,
    if_neg hget, if_true, h]

theorem exists_run_chunks (event : Node) (complaints : List (Option CString)) :
    ∃ c, run (Connection.call url "POST".toList) ⟨none, []⟩
        ([.complete (.ok event)] ++ complaints.map .chunk) = .ok c ∧ c.info.isSome := by
  rw [run_append (run_singleton.mpr (call_of_none hurl _))]
  apply run_progress (P := fun upload => ∃ error, upload = .chunk error)
  · rintro c _ hinfo ⟨error, rfl⟩
    obtain ⟨info, hc⟩ := Option.isSome_iff_exists.mp hinfo
    cases error with
    | none => exact ⟨_, call_of_post hurl hc rfl, rfl⟩
    | some message => exact ⟨_, call_of_post hurl hc rfl, rfl⟩
  · rfl
  · simp

theorem responds_of_handleEvent (complaints : List (Option CString)) {event : Node} {ok : Bool}
    (h : handleEvent event = .ok ok) :
    ∃ statusCode, Responds url complaints event statusCode ∧
      (ok = true → statusCode = okStatus) ∧ (ok = false → 400 ≤ statusCode) := by
  obtain ⟨c, hc, hinfo⟩ := exists_run_chunks hurl event complaints
  obtain ⟨info, hinfo⟩ := Option.isSome_iff_exists.mp hinfo
  obtain ⟨info', page, mimetype, statusCode, hanswer, hstatus⟩ := answerToPost_complete info h
  refine ⟨statusCode, ⟨some info', c.reactions, page, mimetype, ?_⟩, hstatus⟩
  rw [post, run_append hc, run_singleton]
  exact call_of_post hurl hinfo hanswer

end

def Walkable (event : Node) : Prop :=
  ∃ item, lastItem event = some item ∧
    ∀ state, firstState item = some state →
      ∃ first rest, state.children = first :: rest ∧
        (IsEventItem item → state.children.any (·.isCharacterData) = true →
          first.isText = true)

theorem Walkable.exists_handleEvent {event : Node} (h : Walkable event) :
    ∃ ok, handleEvent event = .ok ok ∧ (ok = true ↔ Acceptable event) := by
  obtain ⟨item, hitem, hstates⟩ := h
  cases hstate : firstState item with
  | none =>
      refine ⟨false, handleEvent_of_no_state hitem hstate, ?_⟩
      simp [Acceptable, hitem, hstate]
  | some state =>
      obtain ⟨first, rest, hchildren, htext⟩ := hstates state hstate
      refine ⟨_, handleEvent_of_state hitem hstate hchildren, ?_⟩
      simp only [Bool.and_eq_true, decide_eq_true_eq]
      constructor
      · rintro ⟨hevent, hfirst⟩
        have hdata : state.children.any (·.isCharacterData) = true := by
          simp [hchildren, Node.isCharacterData_of_isText hfirst]
        exact ⟨item, state, hitem, hevent, hstate, hdata⟩
      · rintro ⟨item', state', hitem', hevent, hstate', hdata⟩
        cases hitem.symm.trans hitem'
        cases hstate.symm.trans hstate'
        exact ⟨hevent, htext hevent hdata⟩

theorem walkable_of_answered {event : Node} (h : Answered event) : Walkable event := by
  obtain ⟨ok, hok⟩ := h.total
  cases hitem : lastItem event with
  | none => cases (handleEvent_of_none hitem).symm.trans hok
  | some item =>
      refine ⟨item, hitem, fun state hstate => ?_⟩
      cases hchildren : state.children with
      | nil => cases (handleEvent_of_empty hitem hstate hchildren).symm.trans hok
      | cons first rest =>
          refine ⟨first, rest, rfl, fun hevent hdata => ?_⟩
          have htrue := h.accepts.mpr ⟨item, state, hitem, hevent, hstate, hchildren ▸ hdata⟩
          rw [handleEvent_of_state hitem hstate hchildren] at htrue
          simp only [Except.ok.injEq, Bool.and_eq_true] at htrue
          exact htrue.2

/--
A document is answered exactly when the event has an item, the first `state` of the item
is not empty, and its character data is preceded by nothing else if the item is a
deployment or an instance with an identifier.
-/
theorem event_answered_iff (event : Node) : Answered event ↔ Walkable event := by
  constructor
  · exact walkable_of_answered
  · intro h
    obtain ⟨ok, hok, hiff⟩ := h.exists_handleEvent
    constructor
    case total => exact ⟨ok, hok⟩
    case accepts => rw [hok, Except.ok.injEq, hiff]
    case responds =>
      intro url complaints hurl
      obtain ⟨statusCode, hresponds, htrue, hfalse⟩ := responds_of_handleEvent hurl complaints hok
      refine ⟨statusCode, hresponds, fun hacc => htrue (hiff.mpr hacc), fun hacc => hfalse ?_⟩
      rw [← hiff] at hacc
      exact Bool.eq_false_iff.mpr hacc

def deploymentEvent (state : List Node) : Node :=
  .element "event".toList []
    [.element "datetime".toList [] [.text "2011-07-04T12:00:00".toList],
      .element "deployment".toList [("id".toList, "1".toList)]
        [.element "state".toList [] state]]

/--
An event with nothing but its time, one with an empty state, and an acceptable one whose
state begins with a comment.
-/
theorem event_not_answered :
    handleEvent (.element "event".toList [] [.element "datetime".toList [] []]) =
      .error .nullNode ∧
    handleEvent (deploymentEvent []) = .error .nullNode ∧
    Acceptable (deploymentEvent [.comment "now".toList, .text "STARTED".toList]) ∧
    handleEvent (deploymentEvent [.comment "now".toList, .text "STARTED".toList]) = .ok false := by
  refine ⟨?_, ?_, ⟨_, _, rfl, ?_, rfl, ?_⟩, ?_⟩
  all_goals decide +kernel

end PacemakerCloud.CpeHttpd
