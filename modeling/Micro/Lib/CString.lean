import Mathlib.Data.List.TakeWhile
import Micro.Lib.Bytes

/-!
# Strings in buffers

A string in a buffer is a run of bytes that are not zero with a zero behind it.  A loop over
a string looks for its end; here such a loop has the size of the buffer as its bound, and
fails when it would read past it.  A copy fails when it would write past it.
-/

namespace Micro.Lib

open List Option

variable {size pos k : Nat} {buf : Buf} {s : List UInt8}

/-- The first position from `pos` on with a byte that does not pass a test.  The loop may look
at `left` bytes, those up to the end of the buffer, and fails when all of them pass. -/
def scan (buf : Buf) (test : UInt8 → Bool) : (left pos : Nat) → Option Nat
  | 0, _ => none
  | left + 1, pos => if test (buf pos) then scan buf test left (pos + 1) else some pos

def strlen (size : Nat) (buf : Buf) (pos : Nat) : Option Nat :=
  (scan buf (· != 0) (size - pos) pos).map (· - pos)

def readString (size : Nat) (buf : Buf) (pos : Nat) : Option (List UInt8) :=
  (strlen size buf pos).map (slice buf pos)

/-- `strcpy` of a string to a position. -/
def strcpy (size : Nat) (buf : Buf) (pos : Nat) : List UInt8 → Option Buf
  | [] => store size buf pos [0]
  | c :: src => (store size buf pos [c]).bind fun buf => strcpy size buf (pos + 1) src

/-- `strcat`: copy to the end of the string that is there. -/
def strcat (size : Nat) (buf : Buf) (pos : Nat) (src : List UInt8) : Option Buf :=
  (strlen size buf pos).bind fun len => strcpy size buf (pos + len) src

/-- A string stands at a position of a buffer of some size. -/
structure StringAt (size : Nat) (buf : Buf) (pos : Nat) (s : List UInt8) : Prop where
  bytes : slice buf pos s.length = s
  ends : buf (pos + s.length) = 0
  inside : pos + s.length < size
  plain : 0 ∉ s

namespace StringAt

variable {other : Buf}

theorem byte (holds : StringAt size buf pos s) {i : Nat} {c : UInt8} (isByte : s[i]? = some c) :
    buf (pos + i) = c := by
  have inside : i < s.length := (List.getElem?_eq_some_iff.mp isByte).1
  have read := @getElem?_slice pos _ buf _ inside
  rw [holds.bytes, isByte] at read
  exact (some.inj read).symm

theorem slice_eq (holds : StringAt size buf pos s) : slice buf pos (s.length + 1) = s ++ [0] := by
  rw [slice_add, holds.bytes]
  exact congrArg (fun byte => s ++ [byte]) holds.ends

theorem of_slice (found : slice buf pos (s.length + 1) = s ++ [0]) (plain : 0 ∉ s)
    (inside : pos + s.length < size) : StringAt size buf pos s := by
  rw [slice_add] at found
  rcases append_inj found length_slice with ⟨bytes, ends⟩
  exact ⟨bytes, head_eq_of_cons_eq ends, inside, plain⟩

section

variable (holds : StringAt size buf pos s)
include holds

theorem congr (same : ∀ k, pos ≤ k → k ≤ pos + s.length → other k = buf k) :
    StringAt size other pos s := by
  constructor
  · rw [← holds.bytes, length_slice]
    exact slice_congr fun i _ => same _ (by omega) (by omega)
  · rw [same _ (by omega) le_rfl]
    exact holds.ends
  · exact holds.inside
  · exact holds.plain

theorem mono {larger : Nat} (le : size ≤ larger) : StringAt larger buf pos s :=
  ⟨holds.bytes, holds.ends, Nat.lt_of_lt_of_le holds.inside le, holds.plain⟩

theorem drop (within : k ≤ s.length) : StringAt size buf (pos + k) (s.drop k) := by
  have inside := holds.inside
  have length : pos + k + (s.drop k).length = pos + s.length := by
    rw [length_drop]
    omega
  constructor
  · conv_rhs => rw [← holds.bytes]
    rw [drop_slice, length_drop]
  · rw [length]
    exact holds.ends
  · rw [length]
    exact inside
  · exact fun zero => holds.plain (mem_of_mem_drop zero)

theorem cut (within : k < s.length) :
    StringAt size (put buf (pos + k) [0]) pos (s.take k) ∧
      StringAt size (put buf (pos + k) [0]) (pos + k + 1) (s.drop (k + 1)) := by
  have inside := holds.inside
  have length : (s.take k).length = k := length_take_of_le (Nat.le_of_lt within)
  constructor
  · constructor
    · rw [length, slice_put_outside (.inl le_rfl)]
      conv_rhs => rw [← holds.bytes]
      exact (take_slice (Nat.le_of_lt within)).symm
    · rw [length]
      exact put_inside (i := 0) rfl
    · omega
    · exact fun zero => holds.plain (mem_of_mem_take zero)
  · apply (holds.drop within).congr
    intro i _ _
    apply put_after
    omega

end

/-- A loop over a string stops at the first byte that does not pass its test. -/
theorem scan_eq {test : UInt8 → Bool} (stops : test 0 = false) (holds : StringAt size buf pos s) :
    scan buf test (size - pos) pos = some (pos + (s.takeWhile test).length) := by
  induction s generalizing pos with
  | nil =>
    have inside := holds.inside
    have ends := holds.ends
    simp only [length_nil, Nat.add_zero] at inside ends
    obtain ⟨left, isLeft⟩ := Nat.exists_eq_add_of_lt inside
    rw [show size - pos = left + 1 by omega, scan, ends, stops]
    rfl
  | cons c s ih =>
    have inside := holds.inside
    obtain ⟨left, isLeft⟩ := Nat.exists_eq_add_of_lt (show pos < size by omega)
    have isByte : buf pos = c := holds.byte (i := 0) rfl
    rw [show size - pos = left + 1 by omega, scan, isByte, takeWhile_cons]
    cases passes : test c with
    | false => rfl
    | true =>
      have rest := ih (holds.drop (k := 1) (Nat.le_add_left _ _))
      rw [show size - (pos + 1) = left by omega] at rest
      rw [if_pos rfl, if_pos rfl, rest, length_cons]
      congr 1
      omega

variable (holds : StringAt size buf pos s)
include holds

theorem strlen_eq : strlen size buf pos = some s.length := by
  have all : s.takeWhile (· != 0) = s := by
    apply takeWhile_eq_self_iff.mpr
    intro c mem
    simp only [bne_iff_ne]
    exact fun zero => holds.plain (zero ▸ mem)
  rw [strlen, holds.scan_eq rfl, all, map_some, Nat.add_sub_cancel_left]

theorem readString_eq : readString size buf pos = some s := by
  rw [readString, holds.strlen_eq, map_some, holds.bytes]

theorem unique {t : List UInt8} (also : StringAt size buf pos t) : s = t := by
  have same := holds.readString_eq.symm.trans also.readString_eq
  exact some.inj same

end StringAt

section Copy

theorem strcpy_eq {s : List UInt8} {buf : Buf} {pos : Nat} :
    strcpy size buf pos s = store size buf pos (s ++ [0]) := by
  induction s generalizing buf pos with
  | nil => rfl
  | cons c s ih =>
    have written : put (put buf pos [c]) (pos + 1) (s ++ [0]) = put buf pos (c :: s ++ [0]) :=
      @put_append pos [c] _ buf
    simp only [strcpy, store, length_append, length_cons, length_nil] at ih ⊢
    by_cases fits : pos + (s.length + 1 + 1) ≤ size
    · rw [if_pos (by omega), if_pos (by omega), bind_some, ih, if_pos (by omega), written]
    · rw [if_neg (show ¬ pos + (s.length + 1 + (0 + 1)) ≤ size by omega)]
      split_ifs with first
      · rw [bind_some, ih, if_neg (by omega)]
      · rw [bind_none]

theorem strcpy_none (long : size ≤ pos + s.length) : strcpy size buf pos s = none := by
  rw [strcpy_eq, store, if_neg]
  rw [length_append, length_singleton]
  omega

theorem strcpy_some (plain : 0 ∉ s) (fits : pos + s.length < size) :
    ∃ next, strcpy size buf pos s = some next ∧ StringAt size next pos s ∧
      ∀ k < pos, next k = buf k := by
  have length : (s ++ [0]).length = s.length + 1 := by
    rw [length_append, length_singleton]
  refine ⟨put buf pos (s ++ [0]), ?_, ?_, fun k before => put_before before⟩
  · rw [strcpy_eq, store, if_pos (by omega)]
  · have whole := @slice_put pos (s ++ [0]) buf
    rw [length] at whole
    exact .of_slice whole plain fits

theorem StringAt.strcat_eq (holds : StringAt size buf pos s) (src : List UInt8) :
    strcat size buf pos src = strcpy size buf (pos + s.length) src := by
  rw [strcat, holds.strlen_eq, bind_some]

theorem StringAt.strcat_some (holds : StringAt size buf pos s) {src : List UInt8}
    (plain : 0 ∉ src) (fits : pos + s.length + src.length < size) :
    ∃ next, strcat size buf pos src = some next ∧ StringAt size next pos (s ++ src) := by
  rcases strcpy_some plain fits with ⟨next, copied, second, before⟩
  refine ⟨next, (holds.strcat_eq src).trans copied, ?_⟩
  have first : slice next pos s.length = s := by
    rw [slice_congr fun i inside => before _ (Nat.add_lt_add_left inside pos)]
    exact holds.bytes
  have length : pos + (s ++ src).length = pos + s.length + src.length := by
    rw [length_append, Nat.add_assoc]
  constructor
  · rw [length_append, slice_add, first, second.bytes]
  · rw [length]
    exact second.ends
  · rw [length]
    exact fits
  · intro zero
    exact (mem_append.mp zero).elim holds.plain plain

end Copy

end Micro.Lib
