import Micro.Kern.Types
import Micro.Lib.Bytes

/-!
# printk

`snprintf` of the kernel formats into a buffer of some size.  It compares its position with the
size in front of every character of the format, but not in front of every one it writes.
-/

namespace Micro.Kern.Printk

open Lib Option

/-- The characters that `itoa` and `ultoa` write, the last of the number first. -/
def digits (base : Int) : (fuel : Nat) → (n : Int) → CStr
  | 0, _ => []
  | fuel + 1, n =>
      if n = 0 then []
      else
        let r := n.tmod base
        UInt8.ofInt (if r ≥ 10 then 97 + (r - 10) else 48 + r) :: digits base fuel (n.tdiv base)

/-- `abs` of the least `int` is that number. -/
def itoa (value base : Int) : CStr :=
  let str := digits base 32 (Int.bmod value.natAbs (2 ^ 32))
  let str := if str = [] then [48] else str
  (if value < 0 ∧ base = 10 then str ++ [45] else str).reverse

def ultoa (n : Nat) (base : Int) : CStr :=
  let str := digits base 64 n
  (if str = [] then [48] else str).reverse

/-- What `va_arg` gives for an argument, at the type it is asked for. -/
structure Arg where
  int : Int
  ulong : Nat
  str : CStr

/-- What `snprintf` writes for the character behind a `%`, and how many arguments it takes. -/
def directive (c : UInt8) (arg : Arg) : CStr × Nat :=
  if c = 37 then ([37], 0)
  else if c = 99 then ([UInt8.ofInt arg.int], 1)
  else if c = 105 ∨ c = 100 then (itoa arg.int 10, 1)
  else if c = 115 then (arg.str, 1)
  else if c = 120 then (ultoa arg.ulong 16, 1)
  else ([], 0)

section

variable (args : Nat → Arg)

/-- The loop of `snprintf` from the argument `k` on.  It fails when it writes outside of the buffer
or goes on behind the end of the format. -/
def snprintfFrom (n : Nat) : (format : CStr) → (s : Buf) → (stridx k : Nat) → Option Buf
  | [], s, stridx, _ => store n s stridx [0]
  | c :: format, s, stridx, k =>
      if n ≤ stridx then store n s stridx [0]
      else if c = 37 then
        match format with
        | [] => none
        | c :: format => do
            let (text, taken) := directive c (args k)
            snprintfFrom n format (← store n s stridx text) (stridx + text.length) (k + taken)
      else do snprintfFrom n format (← store n s stridx [c]) (stridx + 1) k

def snprintf (format : CStr) (s : Buf) (n : Nat) : Option Buf := snprintfFrom args n format s 0 0

/-- The whole text of a format; none of one that ends in the middle of a directive. -/
def formatted : (format : CStr) → (k : Nat) → Option CStr
  | [], _ => some []
  | c :: format, k =>
      if c = 37 then
        match format with
        | [] => none
        | c :: format =>
            (formatted format (k + (directive c (args k)).2)).map ((directive c (args k)).1 ++ ·)
      else (formatted format k).map (c :: ·)

/-- `snprintf` stays inside of the buffer and of the format. -/
def Bounded (format : CStr) (n : Nat) : Prop := ∀ s, (snprintf args format s n).isSome

end

section

variable {args : Nat → Arg} {n stridx : Nat} {s : Buf}

theorem isSome_store_bind {text : CStr} {next : Buf → Option Buf} {rest : Option CStr}
    (fits : ∀ s, (next s).isSome ↔ ∃ behind, rest = some behind ∧
      stridx + text.length + behind.length < n) :
    ((store n s stridx text).bind next).isSome ↔
      ∃ whole, rest.map (text ++ ·) = some whole ∧ stridx + whole.length < n := by
  rw [store]
  split
  · simp [fits, Nat.add_assoc]
  · simp only [bind_none, isSome_none, Bool.false_eq_true, map_eq_some_iff, false_iff]
    rintro ⟨_, ⟨behind, _, rfl⟩, inside⟩
    rw [List.length_append] at inside
    omega

theorem snprintfFrom_isSome {format : CStr} {k : Nat} :
    (snprintfFrom args n format s stridx k).isSome ↔
      ∃ text, formatted args format k = some text ∧ stridx + text.length < n := by
  fun_induction snprintfFrom args n format s stridx k with
  | case1 =>
    simp only [formatted, store, some.injEq, exists_eq_left', List.length_singleton, List.length_nil]
    split
    · simp only [isSome_some, true_iff]
      omega
    · simp only [isSome_none, Bool.false_eq_true, false_iff]
      omega
  | case2 _ _ _ _ _ _ =>
    rw [store, if_neg (by simp; omega)]
    simp only [isSome_none, Bool.false_eq_true, false_iff]
    omega
  | case3 => simp [formatted]
  | case4 _ _ k _ c format text _ isText fits =>
    rw [formatted, isText]
    exact isSome_store_bind fits
  | case5 _ _ _ _ _ _ plain fits =>
    rw [formatted.eq_def]
    simp only [if_neg plain]
    exact isSome_store_bind fits

end

/-- All of the text has to fit, with a zero behind it. -/
theorem bounded_iff (args : Nat → Arg) (format : CStr) (n : Nat) :
    Bounded args format n ↔ ∃ text, formatted args format 0 = some text ∧ text.length < n := by
  simp [Bounded, snprintf, snprintfFrom_isSome]

/-- `printk("%s", path)` with a path of 200 bytes -/
theorem printk_overruns : ¬ Bounded (fun _ => ⟨0, 0, List.replicate 200 97⟩) [37, 115] 200 := by
  intro bounded
  exact absurd (bounded fun _ => 0) (by decide +kernel)

end Micro.Kern.Printk
