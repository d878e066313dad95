import PacemakerCloud.Foundation.Xml
import Mathlib.Order.Monotone.Basic

/-!
# Events for the administrator

`capeadmin.c`: a state change is written as an XML document and sent to the
socket.  `event_spammer` offers the whole buffer in every call of `send` and only
counts how many bytes were accepted.
-/

namespace PacemakerCloud

open Foundation

/-! ## Sending -/

/--
The loop of `event_spammer` from the call with this number on.  `send` answers
each call with the number of bytes it accepts, or with an error; the result is
what the socket has accepted, or nothing if the loop is not left in time.
-/
def sendLoop (message : CString) (send : Nat → Option Nat) :
    Nat → Nat → Nat → CString → Option CString
  | 0, _, _, _ => none
  | fuel + 1, call, processed, accepted =>
      match send call with
      | none => some accepted
      | some rc =>
          if processed + rc ≠ message.length then
            sendLoop message send fuel (call + 1) (processed + rc)
              (accepted ++ message.take rc)
          else some (accepted ++ message.take rc)

def eventSpammer (sockfd : Int) (message : CString) (send : Nat → Option Nat)
    (fuel : Nat) : Option CString :=
  if sockfd < 0 then some [] else sendLoop message send fuel 0 0 []

def adminEvent (app : CString) (assembly resource : Option CString)
    (state reason : CString) : Xml :=
  let level := [.elem "state" [] [.text state], .elem "reason" [] [.text reason]]
  let children :=
    match assembly, resource with
    | none, _ => level
    | some a, none => [.elem "node" [("name", a)] level]
    | some a, some r =>
        [.elem "node" [("name", a)] [.elem "resource" [("name", r)] level]]
  .elem "event" [] [.elem "application" [("name", app)] children]

/-- `cape_admin_event_send`, with the text that `xmlDocDumpMemory` makes of a document. -/
def capeAdminEventSend (dump : Xml → CString) (sockfd : Int) (app : CString)
    (assembly resource : Option CString) (state reason : CString)
    (send : Nat → Option Nat) (fuel : Nat) : Option CString :=
  eventSpammer sockfd (dump (adminEvent app assembly resource state reason)) send fuel

/-! ## What the socket accepts -/

section

variable (message : CString) (counts : Nat → Nat)

def processedAfter : Nat → Nat
  | 0 => 0
  | calls + 1 => processedAfter calls + counts calls

/-- What the first calls have put on the socket: each time the beginning of the buffer. -/
def acceptedAfter : Nat → CString
  | 0 => []
  | calls + 1 => acceptedAfter calls ++ message.take (counts calls)

/-- Each of the first calls accepts what stands at its place in the message. -/
def Continues (calls : Nat) : Prop :=
  ∀ i < calls, (message.drop (processedAfter counts i)).take (counts i) =
    message.take (counts i)

variable {message counts}

instance (calls : Nat) : Decidable (Continues message counts calls) :=
  inferInstanceAs (Decidable (∀ i < calls, _ = _))

theorem processedAfter_strictMono (hpos : ∀ i, 0 < counts i) :
    StrictMono (processedAfter counts) :=
  strictMono_nat_of_lt_succ fun calls => Nat.lt_add_of_pos_right (hpos calls)

theorem length_acceptedAfter (hle : ∀ i, counts i ≤ message.length) (calls : Nat) :
    (acceptedAfter message counts calls).length = processedAfter counts calls := by
  induction calls with
  | zero => rfl
  | succ calls ih =>
      simp [acceptedAfter, processedAfter, ih, Nat.min_eq_left (hle calls)]

theorem acceptedAfter_eq_take_iff (hle : ∀ i, counts i ≤ message.length) (calls : Nat)
    (hfits : processedAfter counts calls ≤ message.length) :
    acceptedAfter message counts calls = message.take (processedAfter counts calls) ↔
      Continues message counts calls := by
  induction calls with
  | zero => simp [acceptedAfter, processedAfter, Continues]
  | succ calls ih =>
      have hfits' : processedAfter counts calls ≤ message.length := by
        simp only [processedAfter] at hfits
        omega
      have hlen : (acceptedAfter message counts calls).length =
          (message.take (processedAfter counts calls)).length := by
        rw [length_acceptedAfter hle, List.length_take, Nat.min_eq_left hfits']
      rw [acceptedAfter, processedAfter, List.take_add]
      constructor
      · intro h i hi
        obtain ⟨hbefore, hlast⟩ := List.append_inj h hlen
        rcases Nat.lt_succ_iff_lt_or_eq.mp hi with hi | rfl
        · exact (ih hfits').mp hbefore i hi
        · exact hlast.symm
      · intro h
        rw [(ih hfits').mpr fun i hi => h i (by omega), h calls (by omega)]

theorem sendLoop_eq_some_iff (hpos : ∀ i, 0 < counts i) (fuel call : Nat) {out : CString} :
    sendLoop message (fun i => some (counts i)) fuel call (processedAfter counts call)
        (acceptedAfter message counts call) = some out ↔
      ∃ calls, call < calls ∧ calls ≤ call + fuel ∧
        processedAfter counts calls = message.length ∧
        out = acceptedAfter message counts calls := by
  have hmono := processedAfter_strictMono hpos
  induction fuel generalizing call with
  | zero =>
      simp only [sendLoop]
      constructor
      · rintro ⟨⟩
      · rintro ⟨calls, hlt, hle, -⟩
        omega
  | succ fuel ih =>
      simp only [sendLoop]
      split
      · next hmore =>
          have ih' := ih (call + 1)
          simp only [processedAfter, acceptedAfter] at ih'
          refine ih'.trans ?_
          constructor
          · rintro ⟨calls, hlt, hle, hsent⟩
            exact ⟨calls, by omega, by omega, hsent⟩
          · rintro ⟨calls, hlt, hle, hsent, hout⟩
            have hne : calls ≠ call + 1 := by
              rintro rfl
              exact hmore hsent
            exact ⟨calls, by omega, by omega, hsent, hout⟩
      · next hdone =>
          have hlast : processedAfter counts (call + 1) = message.length := not_not.mp hdone
          constructor
          · intro h
            exact ⟨call + 1, by omega, by omega, hlast, (Option.some.inj h).symm⟩
          · rintro ⟨calls, -, -, hsent, rfl⟩
            rw [hmono.injective (hsent.trans hlast.symm)]
            rfl

theorem sendLoop_whole_iff (hpos : ∀ i, 0 < counts i) (hle : ∀ i, counts i ≤ message.length) :
    (∃ fuel, sendLoop message (fun i => some (counts i)) fuel 0 0 [] = some message) ↔
      ∃ calls, processedAfter counts calls = message.length ∧
        Continues message counts calls := by
  have hsent : ∀ calls, processedAfter counts calls = message.length →
      (message = acceptedAfter message counts calls ↔ Continues message counts calls) := by
    intro calls hlen
    rw [← acceptedAfter_eq_take_iff hle calls (Nat.le_of_eq hlen), hlen, List.take_length,
      eq_comm]
  constructor
  · rintro ⟨fuel, h⟩
    obtain ⟨calls, -, -, hlen, hout⟩ := (sendLoop_eq_some_iff hpos fuel 0).mp h
    exact ⟨calls, hlen, (hsent calls hlen).mp hout⟩
  · rintro ⟨calls, hlen, hcontinues⟩
    have hcalls : 0 < calls := by
      rcases Nat.eq_zero_or_pos calls with rfl | hcalls
      · have := hpos 0
        have := hle 0
        simp only [processedAfter] at hlen
        omega
      · exact hcalls
    exact ⟨calls, (sendLoop_eq_some_iff hpos calls 0).mpr ⟨calls, hcalls, by omega, hlen,
      (hsent calls hlen).mpr hcontinues⟩⟩

theorem eventSpammer_whole_iff (sockfd : Int) (hpos : ∀ i, 0 < counts i)
    (hle : ∀ i, counts i ≤ message.length) :
    (∃ fuel, eventSpammer sockfd message (fun i => some (counts i)) fuel = some message) ↔
      0 ≤ sockfd ∧ ∃ calls, processedAfter counts calls = message.length ∧
        Continues message counts calls := by
  by_cases hsock : sockfd < 0
  · -- nothing is sent, but there is something to send
    have hmessage : message ≠ [] := by
      rintro rfl
      exact absurd (hpos 0) (Nat.not_lt.mpr (hle 0))
    simp only [eventSpammer, if_pos hsock, Option.some.injEq, hmessage.symm, exists_const,
      false_iff, not_and]
    omega
  · simp only [eventSpammer, if_neg hsock, sendLoop_whole_iff hpos hle, Int.not_lt.mp hsock,
      true_and]

end

/--
An event is sent whole and once exactly when the socket is open, some number of calls
accept as many bytes as its document has, and what each of them accepts from the beginning
of the buffer is also what stands at its place in the document.  It is enough that the
first call accepts the whole document.
-/
theorem event_sent_whole_iff (dump : Xml → CString) (sockfd : Int) (app : CString)
    (assembly resource : Option CString) (state reason : CString) {counts : Nat → Nat}
    (hpos : ∀ i, 0 < counts i)
    (hle : ∀ i, counts i ≤ (dump (adminEvent app assembly resource state reason)).length) :
    let message := dump (adminEvent app assembly resource state reason)
    (∃ fuel, capeAdminEventSend dump sockfd app assembly resource state reason
        (fun i => some (counts i)) fuel = some message) ↔
      0 ≤ sockfd ∧ ∃ calls, processedAfter counts calls = message.length ∧
        Continues message counts calls :=
  eventSpammer_whole_iff sockfd hpos hle

/-- The document is accepted by the first call. -/
theorem event_sent_whole_iff_first :
    ∃ fuel, capeAdminEventSend (fun _ => "<event/>".toList) 3 "web".toList none none
        "running".toList "all good".toList (fun _ => some 8) fuel = some "<event/>".toList :=
  (event_sent_whole_iff (fun _ => "<event/>".toList) 3 _ _ _ _ _ (fun _ => by decide)
    (fun _ => by decide)).mpr ⟨by decide, 1, by decide, by decide⟩

/--
A short write.  The second call sends the beginning once more, and the count passes
the length of the message, so that the loop goes on for ever; or it meets the length
by chance, and the message is mangled.
-/
theorem short_write_repeats :
    (∀ fuel, eventSpammer 3 "<event/>".toList (fun _ => some 5) fuel = none) ∧
      eventSpammer 3 "<event/>".toList (fun i => some (if i = 0 then 5 else 3)) 2 =
        some "<even<ev".toList := by
  refine ⟨fun fuel => ?_, by decide⟩
  have hfive : ∀ calls, processedAfter (fun _ => 5) calls = 5 * calls := by
    intro calls
    induction calls with
    | zero => rfl
    | succ calls ih => rw [processedAfter, ih, Nat.mul_succ]
  rw [Option.eq_none_iff_forall_ne_some]
  intro out hout
  obtain ⟨calls, -, -, hlen, -⟩ :=
    (sendLoop_eq_some_iff (fun _ => by decide) fuel 0).mp hout
  have hlength : "<event/>".toList.length = 8 := by decide
  rw [hfive, hlength] at hlen
  omega

end PacemakerCloud
