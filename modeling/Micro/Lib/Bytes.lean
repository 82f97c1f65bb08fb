import Mathlib.Algebra.Order.Ring.Int

/-!
# Byte buffers

A buffer is a function from positions to bytes.  Numbers are stored in it with the least
significant byte first.  Every copy is a `put`, and two fields that do not overlap do not
disturb one another.
-/

namespace Micro.Lib

open List

variable {pos i pos' value : Nat} {bytes others before after : List UInt8}

/-- The contents of a buffer, by position. -/
abbrev Buf := Nat → UInt8

variable {buf other : Buf}

/-- Copy bytes to a position of a buffer. -/
def put (buf : Buf) (pos : Nat) (bytes : List UInt8) : Buf :=
  fun k => if pos ≤ k then bytes.getD (k - pos) (buf k) else buf k

/-- Copy bytes to a position of a buffer of some size; `none` when they run over its end. -/
def store (size : Nat) (buf : Buf) (pos : Nat) (bytes : List UInt8) : Option Buf :=
  if pos + bytes.length ≤ size then some (put buf pos bytes) else none

section

variable (buf : Buf) (pos : Nat)

/-- So many bytes of a buffer from a position on. -/
def slice (count : Nat) : List UInt8 := (List.range' pos count).map buf

/-- A 16-bit number. -/
def le16 : Nat := (buf pos).toNat + 2 ^ 8 * (buf (pos + 1)).toNat

/-- A 32-bit number. -/
def le32 : Nat := le16 buf pos + 2 ^ 16 * le16 buf (pos + 2)

/-- A 64-bit number. -/
def le64 : Nat := le32 buf pos + 2 ^ 32 * le32 buf (pos + 4)

end

def bytes16 (value : Nat) : List UInt8 := [UInt8.ofNat value, UInt8.ofNat (value / 2 ^ 8)]

def bytes32 (value : Nat) : List UInt8 := bytes16 value ++ bytes16 (value / 2 ^ 16)

def bytes64 (value : Nat) : List UInt8 := bytes32 value ++ bytes32 (value / 2 ^ 32)

section Put

variable {k : Nat}

theorem put_before (outside : k < pos) : put buf pos bytes k = buf k :=
  if_neg (Nat.not_le.mpr outside)

theorem put_after (outside : pos + bytes.length ≤ k) : put buf pos bytes k = buf k := by
  have past : bytes[k - pos]? = none := getElem?_eq_none (by omega)
  rw [put, if_pos (by omega), getD, past, Option.getD_none]

theorem put_outside (outside : k < pos ∨ pos + bytes.length ≤ k) : put buf pos bytes k = buf k :=
  outside.elim put_before put_after

theorem put_inside {byte : UInt8} (isByte : bytes[i]? = some byte) :
    put buf pos bytes (pos + i) = byte := by
  rw [put]
  simp [isByte]

@[simp] theorem put_nil : put buf pos [] = buf := by
  funext k
  simp [put]

theorem put_put (length : others.length = bytes.length) :
    put (put buf pos bytes) pos others = put buf pos others := by
  funext k
  by_cases outside : k < pos ∨ pos + others.length ≤ k
  · rw [put_outside outside, put_outside (length ▸ outside), put_outside outside]
  · obtain ⟨i, rfl⟩ := Nat.exists_eq_add_of_le (show pos ≤ k by omega)
    have inside := getElem?_eq_getElem (show i < others.length by omega)
    rw [put_inside inside, put_inside inside]

theorem put_append :
    put (put buf pos bytes) (pos + bytes.length) others = put buf pos (bytes ++ others) := by
  funext k
  by_cases before : k < pos
  · rw [put_before before, put_before (by omega), put_before before]
  · obtain ⟨i, rfl⟩ := Nat.exists_eq_add_of_le (Nat.le_of_not_lt before)
    by_cases first : i < bytes.length
    · have inFirst := getElem?_eq_getElem first
      have inBoth : (bytes ++ others)[i]? = some bytes[i] := by simp [getElem?_append, first]
      rw [put_before (by omega), put_inside inFirst, put_inside inBoth]
    · by_cases second : i < bytes.length + others.length
      · have inSecond : others[i - bytes.length]? = some others[i - bytes.length] :=
          getElem?_eq_getElem (by omega)
        have inBoth : (bytes ++ others)[i]? = some others[i - bytes.length] := by
          rw [getElem?_append_right (by omega), inSecond]
        have isPos : pos + i = pos + bytes.length + (i - bytes.length) := by omega
        rw [put_inside inBoth, isPos, put_inside inSecond]
      · rw [put_after (by omega), put_after (by omega), put_after (by rw [length_append]; omega)]

end Put

section Slice

variable {count : Nat}

@[simp] theorem length_slice : (slice buf pos count).length = count := by
  simp [slice]

theorem getElem?_slice (inside : i < count) : (slice buf pos count)[i]? = some (buf (pos + i)) := by
  simp [slice, inside]

theorem slice_congr (same : ∀ i < count, buf (pos + i) = other (pos + i)) :
    slice buf pos count = slice other pos count := by
  apply map_congr_left
  intro k mem
  obtain ⟨i, inside, isK⟩ := mem_range'.mp mem
  rw [isK, Nat.one_mul]
  exact same i inside

@[simp] theorem slice_zero : slice buf pos 0 = [] := rfl

theorem slice_add (first second : Nat) :
    slice buf pos (first + second) = slice buf pos first ++ slice buf (pos + first) second := by
  simp only [slice, ← map_append, range'_append_1]

theorem take_slice {first : Nat} (inside : first ≤ count) :
    (slice buf pos count).take first = slice buf pos first := by
  have isCount : count = first + (count - first) := by omega
  rw [isCount, slice_add, take_left' length_slice]

theorem drop_slice (first : Nat) :
    (slice buf pos count).drop first = slice buf (pos + first) (count - first) := by
  by_cases inside : first ≤ count
  · have isCount : count = first + (count - first) := by omega
    conv_lhs => rw [isCount]
    rw [slice_add, drop_left' length_slice]
  · rw [drop_eq_nil_of_le (by rw [length_slice]; omega), Nat.sub_eq_zero_of_le (by omega),
      slice_zero]

theorem slice_append (found : slice buf pos count = bytes ++ others) :
    slice buf pos bytes.length = bytes ∧ slice buf (pos + bytes.length) others.length = others := by
  have length : count = bytes.length + others.length := by simpa using congrArg length found
  rw [length, slice_add] at found
  exact append_inj found length_slice

theorem slice_put : slice (put buf pos bytes) pos bytes.length = bytes := by
  apply ext_getElem?
  intro i
  by_cases inside : i < bytes.length
  · rw [getElem?_slice inside, getElem?_eq_getElem inside, put_inside (getElem?_eq_getElem inside)]
  · rw [getElem?_eq_none (by simpa using inside), getElem?_eq_none (by omega)]

theorem slice_put_outside (outside : pos + count ≤ pos' ∨ pos' + bytes.length ≤ pos) :
    slice (put buf pos' bytes) pos count = slice buf pos count :=
  slice_congr fun i _ => put_outside (by omega)

theorem slice_put_at {part : List UInt8} (isBytes : bytes = before ++ part ++ after) :
    slice (put buf pos bytes) (pos + before.length) part.length = part := by
  have found : slice (put buf pos bytes) pos bytes.length = before ++ (part ++ after) := by
    rw [slice_put, isBytes, append_assoc]
  exact (slice_append (slice_append found).2).1

end Slice

section Numbers

theorem le16_lt : le16 buf pos < 2 ^ 16 := by
  have low := (buf pos).toNat_lt
  have high := (buf (pos + 1)).toNat_lt
  rw [le16]
  omega

theorem le32_lt : le32 buf pos < 2 ^ 32 := by
  have low := @le16_lt pos buf
  have high := @le16_lt (pos + 2) buf
  rw [le32]
  omega

theorem le16_congr (same : ∀ k, pos ≤ k → k < pos + 2 → buf k = other k) :
    le16 buf pos = le16 other pos := by
  rw [le16, le16, same pos (Nat.le_refl _) (by omega), same (pos + 1) (by omega) (by omega)]

theorem le32_congr (same : ∀ k, pos ≤ k → k < pos + 4 → buf k = other k) :
    le32 buf pos = le32 other pos := by
  rw [le32, le32, le16_congr fun k from_ below => same k from_ (by omega),
    le16_congr fun k from_ below => same k (by omega) (by omega)]

theorem le32_put_outside (outside : pos + 4 ≤ pos' ∨ pos' + bytes.length ≤ pos) :
    le32 (put buf pos' bytes) pos = le32 buf pos :=
  le32_congr fun _ _ _ => put_outside (by omega)

theorem le64_congr (same : ∀ k, pos ≤ k → k < pos + 8 → buf k = other k) :
    le64 buf pos = le64 other pos := by
  rw [le64, le64, le32_congr fun k from_ below => same k from_ (by omega),
    le32_congr fun k from_ below => same k (by omega) (by omega)]

theorem le64_lt : le64 buf pos < 2 ^ 64 := by
  have low := @le32_lt pos buf
  have high := @le32_lt (pos + 4) buf
  rw [le64]
  omega

theorem le64_put_outside (outside : pos + 8 ≤ pos' ∨ pos' + bytes.length ≤ pos) :
    le64 (put buf pos' bytes) pos = le64 buf pos :=
  le64_congr fun _ _ _ => put_outside (by omega)

theorem le16_of_slice (found : slice buf pos 2 = bytes16 value) : le16 buf pos = value % 2 ^ 16 := by
  have isBytes : [buf pos, buf (pos + 1)] = bytes16 value := found
  simp only [bytes16, cons.injEq, and_true] at isBytes
  rw [le16, isBytes.1, isBytes.2]
  simp only [UInt8.toNat_ofNat']
  omega

theorem le32_of_slice (found : slice buf pos 4 = bytes32 value) : le32 buf pos = value % 2 ^ 32 := by
  have low : le16 buf pos = _ := le16_of_slice (slice_append found).1
  have high : le16 buf (pos + 2) = _ := le16_of_slice (slice_append found).2
  rw [le32]
  omega

theorem le64_of_slice (found : slice buf pos 8 = bytes64 value) : le64 buf pos = value % 2 ^ 64 := by
  have low : le32 buf pos = _ := le32_of_slice (slice_append found).1
  have high : le32 buf (pos + 4) = _ := le32_of_slice (slice_append found).2
  rw [le64]
  omega

theorem le16_put_at (isBytes : bytes = before ++ bytes16 value ++ after)
    (isIndex : i = before.length) : le16 (put buf pos bytes) (pos + i) = value % 2 ^ 16 :=
  le16_of_slice (isIndex ▸ slice_put_at isBytes)

theorem le32_put_at (isBytes : bytes = before ++ bytes32 value ++ after)
    (isIndex : i = before.length) : le32 (put buf pos bytes) (pos + i) = value % 2 ^ 32 :=
  le32_of_slice (isIndex ▸ slice_put_at isBytes)

@[simp] theorem length_bytes32 (value : Nat) : (bytes32 value).length = 4 := rfl

@[simp] theorem length_bytes64 (value : Nat) : (bytes64 value).length = 8 := rfl

theorem le32_put_self (value : Nat) : le32 (put buf pos (bytes32 value)) pos = value % 2 ^ 32 :=
  le32_of_slice slice_put

theorem le64_put_self (value : Nat) : le64 (put buf pos (bytes64 value)) pos = value % 2 ^ 64 :=
  le64_of_slice slice_put

end Numbers

end Micro.Lib
