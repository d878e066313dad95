import PacemakerCloud.Foundation.CString

/-!
# Reading memory byte by byte

A pointer stands for the bytes that can be read from there on.  The functions of the C
library below look at one byte after the other until they know their result; one that is
still looking at the end of the memory ends in a fault.
-/

namespace PacemakerCloud.Foundation

inductive MemoryFault where
  | pastEnd
  deriving DecidableEq, Repr

def nul : Char := Char.ofNat 0

/-- `strncmp (memory, text, n) == 0`, for a text with its terminator behind it. -/
def strncmp : CString → CString → Nat → Except MemoryFault Bool
  | _, _, 0 => .ok true
  | [], _, _ + 1 => .error .pastEnd
  | c :: _, [], _ + 1 => .ok (c = nul)
  | c :: memory, d :: text, n + 1 => if c = d then strncmp memory text n else .ok false

def strndup : CString → Nat → Except MemoryFault CString
  | _, 0 => .ok []
  | [], _ + 1 => .error .pastEnd
  | c :: memory, n + 1 => if c = nul then .ok [] else (strndup memory n).map (c :: ·)

/-- A byte that is not in the text ends the comparison before anything behind it is read. -/
theorem strncmp_append_cons {text : CString} {c : Char} (hc : c ∉ text)
    (before behind : CString) :
    strncmp (before ++ c :: behind) text text.length = .ok (decide (text <+: before)) := by
  induction text generalizing before with
  | nil => cases before <;> simp [strncmp]
  | cons d text ih =>
      rw [List.mem_cons, not_or] at hc
      cases before with
      | nil => simp [strncmp, hc.1]
      | cons b before =>
          rw [List.cons_append, List.length_cons, strncmp, ih hc.2]
          by_cases hb : b = d
          · simp [hb]
          · simp [hb, Ne.symm hb]

theorem prefix_of_strndup {memory copy : CString} {n : Nat} (h : strndup memory n = .ok copy) :
    copy.length < n → copy ++ [nul] <+: memory := by
  induction memory generalizing n copy with
  | nil =>
      cases n with
      | zero => simp
      | succ n => simp [strndup] at h
  | cons c memory ih =>
      cases n with
      | zero => simp
      | succ n =>
          rw [strndup] at h
          split at h
          case isTrue hnul =>
            cases h
            simp [hnul]
          case isFalse =>
            cases hrest : strndup memory n with
            | error fault => simp [hrest, Except.map] at h
            | ok rest =>
                rw [hrest] at h
                cases h
                intro hlength
                have hstarts := ih hrest (by simpa using hlength)
                simpa using hstarts

end PacemakerCloud.Foundation
