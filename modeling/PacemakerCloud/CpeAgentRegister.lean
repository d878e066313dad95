import PacemakerCloud.Foundation.Memory
import PacemakerCloud.Foundation.Run

/-!
# Registration of the hook

`curl_process_header` and `register_hook` of `cpe_agent_register.cpp`.  The transfer
library calls `curl_process_header` for every line of the response header, with a size of
one and the length of the line as the number of members.  The bytes of a line are not
terminated: what can be read behind them is an input.  Memory never runs out, and the
request that is sent is not part of the model.
-/

namespace PacemakerCloud.CpeAgent

open Foundation

def crlf : CString := ['\r', '\n']

/-- A line of the response header without its end, and what the memory holds behind it. -/
structure HeaderLine where
  text : CString
  behind : CString
  /-- The length of the line is a `size_t`. -/
  fits : (text ++ crlf).length < 2 ^ 64
  deriving DecidableEq

namespace HeaderLine

def bytes (line : HeaderLine) : CString := line.text ++ crlf

def contents (line : HeaderLine) : CString := line.bytes ++ line.behind

def nmemb (line : HeaderLine) : UInt64 := .ofNat line.bytes.length

end HeaderLine

def locationField : CString := "Location:".toList

/-- The length that `strndup` is called with; `size_t` has 64 bits. -/
def copyLength (size : UInt64) : Nat := (size - 10).toNat

/-- `curl_process_header`: what `*location` is then, and the value that is returned. -/
def curlProcessHeader (contents : CString) (size nmemb : UInt64) (location : Option CString) :
    Except MemoryFault (Option CString × UInt64) := do
  let realsize := size * nmemb
  if ← strncmp contents locationField 9 then
    let copy ← strndup (contents.drop 10) (copyLength size)
    return (some copy, realsize)
  else return (location, realsize)

/-- The calls for the lines of a response, up to one whose result is not what was given. -/
def processHeaders (location : Option CString) :
    List HeaderLine → Except MemoryFault (Option CString)
  | [] => .ok location
  | line :: lines => do
      let (location, realsize) ← curlProcessHeader line.contents 1 line.nmemb location
      if realsize = line.nmemb then processHeaders location lines else return location

inductive Registration where
  /-- `curl_easy_perform` returned an error. -/
  | failed (res : Nat)
  | refused (httpCode : Int) (message : CString)
  /-- The location is stored in `conductor_hook`. -/
  | registered (conductorHook : CString)
  deriving DecidableEq, Repr

def storeHook (res : Nat) (httpCode : Int) (conductorLocation : Option CString) :
    Registration :=
  if res ≠ 0 then .failed res
  else if 400 ≤ httpCode then
    .refused httpCode (if httpCode = 401 then " (Unauthorized)".toList else [])
  else
    match conductorLocation with
    | none => .refused httpCode " no Location: header".toList
    | some location => .registered location

def registerHook (res : Nat) (httpCode : Int) (lines : List HeaderLine) :
    Except MemoryFault Registration := do
  let conductorLocation ← processHeaders none lines
  return storeHook res httpCode conductorLocation

/-! ## The value of the header -/

def HeaderLine.location (line : HeaderLine) : Option CString :=
  if "Location: ".toList <+: line.text then some (line.text.drop 10) else none

def lastLocation (lines : List HeaderLine) : Option CString :=
  (lines.filterMap HeaderLine.location).getLast?

/--
The lengths that are computed in the call for a line, each with the number of bytes that the
line still has where it is used.
-/
def HeaderLine.lengths (line : HeaderLine) : List (Nat × Nat) :=
  (((1 : UInt64) * line.nmemb).toNat, line.bytes.length) ::
    if locationField <+: line.text then [(copyLength 1, line.bytes.length - 10)] else []

/-- The hook is what the header says, and no length is larger than what is left of a line. -/
structure ExactLocation (lines : List HeaderLine) : Prop where
  stored : ∀ res httpCode,
    registerHook res httpCode lines = .ok (storeHook res httpCode (lastLocation lines))
  lengths_le : ∀ line ∈ lines, ∀ length ∈ line.lengths, length.1 ≤ length.2

variable {line : HeaderLine} {lines : List HeaderLine} {location : Option CString}

theorem strncmp_contents (line : HeaderLine) :
    strncmp line.contents locationField 9 = .ok (decide (locationField <+: line.text)) := by
  have hcr : '\r' ∉ locationField := by decide +kernel
  have hcontents : line.contents = line.text ++ '\r' :: ('\n' :: line.behind) := by
    simp [HeaderLine.contents, HeaderLine.bytes, crlf]
  have hlength : 9 = locationField.length := by decide +kernel
  rw [hcontents, hlength, strncmp_append_cons hcr]

theorem curlProcessHeader_of_other (h : ¬locationField <+: line.text) (nmemb : UInt64) :
    curlProcessHeader line.contents 1 nmemb location = .ok (location, 1 * nmemb) := by
  rw [curlProcessHeader, strncmp_contents, decide_eq_false h]
  rfl

theorem curlProcessHeader_of_field (h : locationField <+: line.text) (nmemb : UInt64) :
    curlProcessHeader line.contents 1 nmemb location =
      strndup (line.contents.drop 10) (copyLength 1) >>= fun copy =>
        .ok (some copy, 1 * nmemb) := by
  rw [curlProcessHeader, strncmp_contents, decide_eq_true h]
  rfl

theorem processHeaders_cons (line : HeaderLine) (lines : List HeaderLine) :
    processHeaders location (line :: lines) =
      curlProcessHeader line.contents 1 line.nmemb location >>= fun called =>
        processHeaders called.1 lines := by
  have hrealsize : (1 : UInt64) * line.nmemb = line.nmemb := UInt64.one_mul _
  by_cases h : locationField <+: line.text
  · rw [processHeaders, curlProcessHeader_of_field h]
    cases strndup (line.contents.drop 10) (copyLength 1) with
    | error fault => rfl
    | ok copy => simp only [ok_bind, hrealsize, if_true]
  · rw [processHeaders, curlProcessHeader_of_other h]
    simp only [ok_bind, hrealsize, if_true]

theorem processHeaders_of_none (h : ∀ line ∈ lines, ¬locationField <+: line.text) :
    processHeaders location lines = .ok location := by
  induction lines with
  | nil => rfl
  | cons line lines ih =>
      rw [List.forall_mem_cons] at h
      rw [processHeaders_cons, curlProcessHeader_of_other h.1, ok_bind]
      exact ih h.2

theorem processHeaders_of_last {before after : List HeaderLine} {result : Option CString}
    (hline : locationField <+: line.text)
    (hafter : ∀ line ∈ after, ¬locationField <+: line.text)
    (h : processHeaders location (before ++ line :: after) = .ok result) :
    ∃ copy, strndup (line.contents.drop 10) (copyLength 1) = .ok copy ∧ result = some copy := by
  induction before generalizing location with
  | nil =>
      rw [List.nil_append, processHeaders_cons, curlProcessHeader_of_field hline] at h
      obtain ⟨called, hcalled, hrest⟩ := bind_eq_ok.mp h
      obtain ⟨copy, hcopy, hresult⟩ := bind_eq_ok.mp hcalled
      cases hresult
      rw [processHeaders_of_none hafter] at hrest
      cases hrest
      exact ⟨copy, hcopy, rfl⟩
  | cons first before ih =>
      rw [List.cons_append, processHeaders_cons] at h
      obtain ⟨called, -, hrest⟩ := bind_eq_ok.mp h
      exact ih hrest

theorem locationField_starts : locationField <+: "Location: ".toList := by decide +kernel

theorem lastLocation_of_none (h : ∀ line ∈ lines, ¬locationField <+: line.text) :
    lastLocation lines = none := by
  have hnone : lines.filterMap HeaderLine.location = [] := by
    refine List.filterMap_eq_nil_iff.mpr fun line hline => if_neg fun hstarts => ?_
    exact h line hline (locationField_starts.trans hstarts)
  rw [lastLocation, hnone, List.getLast?_nil]

theorem realsize_le (line : HeaderLine) :
    ((1 : UInt64) * line.nmemb).toNat ≤ line.bytes.length := by
  rw [UInt64.one_mul]
  exact Nat.mod_le _ _

theorem length_lt_copyLength (line : HeaderLine) : line.bytes.length - 10 < copyLength 1 := by
  have hcopy : copyLength 1 = 2 ^ 64 - 9 := by decide
  have hfits : line.bytes.length < 2 ^ 64 := line.fits
  omega

theorem drop_contents (h : "Location: ".toList <+: line.text) :
    line.contents.drop 10 = line.text.drop 10 ++ '\r' :: '\n' :: line.behind := by
  have hlength : "Location: ".toList.length = 10 := by decide +kernel
  rw [HeaderLine.contents, HeaderLine.bytes, List.append_assoc,
    List.drop_append_of_le_length (hlength ▸ h.length_le)]
  rfl

theorem copy_ne_location {value copy : CString} (h : line.location = some value)
    (hcopy : strndup (line.contents.drop 10) (copyLength 1) = .ok copy) : copy ≠ value := by
  obtain ⟨hstarts, hvalue⟩ := Option.ite_none_right_eq_some.mp h
  rw [Option.some.injEq] at hvalue
  rintro rfl
  have hshort : copy.length < copyLength 1 := by
    have hlength := length_lt_copyLength line
    rw [← hvalue, List.length_drop]
    simp only [HeaderLine.bytes, List.length_append] at hlength
    omega
  have hnul := prefix_of_strndup hcopy hshort
  -- the terminator would have to stand where the end of the line is
  rw [drop_contents hstarts, hvalue, List.prefix_append_right_inj, List.cons_prefix_cons] at hnul
  exact absurd hnul.1 (by decide)

theorem registerHook_ne_location {before after : List HeaderLine} {value : CString}
    (h : line.location = some value)
    (hafter : ∀ line ∈ after, ¬locationField <+: line.text) (res : Nat) (httpCode : Int) :
    registerHook res httpCode (before ++ line :: after) ≠ .ok (.registered value) := by
  intro hregistered
  obtain ⟨conductorLocation, hprocess, hstore⟩ := bind_eq_ok.mp hregistered
  have hfield := locationField_starts.trans (Option.ite_none_right_eq_some.mp h).1
  obtain ⟨copy, hcopy, rfl⟩ := processHeaders_of_last hfield hafter hprocess
  have hstored : storeHook res httpCode (some copy) = .registered value := Except.ok.inj hstore
  simp only [storeHook] at hstored
  split at hstored
  case isTrue => cases hstored
  case isFalse =>
    split at hstored
    case isTrue => cases hstored
    case isFalse => exact copy_ne_location h hcopy (Registration.registered.inj hstored)

theorem exactLocation_iff (lines : List HeaderLine) :
    ExactLocation lines ↔ ∀ line ∈ lines, ¬locationField <+: line.text := by
  constructor
  · intro h line hline hstarts
    have hle := h.lengths_le line hline (copyLength 1, line.bytes.length - 10)
      (by simp [HeaderLine.lengths, hstarts])
    exact absurd hle (Nat.not_le.mpr (length_lt_copyLength line))
  · intro h
    refine ⟨fun res httpCode => ?_, fun line hline length hlength => ?_⟩
    · rw [registerHook, processHeaders_of_none h, lastLocation_of_none h]
      rfl
    · rw [HeaderLine.lengths, if_neg (h line hline), List.mem_singleton] at hlength
      rw [hlength]
      exact realsize_le line

def createdLine : HeaderLine where
  text := "Location: /conductor/api/hooks/1".toList
  behind := "Server: thin\r\n".toList ++ [nul]
  fits := by decide +kernel

theorem stored_with_next_header :
    registerHook 0 201 [createdLine] =
        .ok (.registered "/conductor/api/hooks/1\r\nServer: thin\r\n".toList) ∧
      lastLocation [createdLine] = some "/conductor/api/hooks/1".toList ∧
      ¬ExactLocation [createdLine] := by
  refine ⟨by decide +kernel, by decide +kernel, fun h => ?_⟩
  have hstored := h.stored 0 201
  revert hstored
  decide +kernel

end PacemakerCloud.CpeAgent
