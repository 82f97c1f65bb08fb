import Micro.Fs.Path
import Micro.Term.Ansi

/-!
# Colours

`ansi_parse` as a function of the bytes that `tgetc` delivers to the colours it keeps.
-/

namespace Micro.Term

open Kern List

structure Colours where
  (fg bg : Nat)

/-- What `parse_gfx` does with a number. -/
def pick (colours : Colours) (i : Int) : Colours :=
  if i = 0 then ⟨15, 0⟩
  else if 30 ≤ i ∧ i ≤ 37 then { colours with fg := (i - 30).toNat }
  else if 40 ≤ i ∧ i ≤ 47 then { colours with bg := (i - 40).toNat }
  else if 90 ≤ i ∧ i ≤ 97 then { colours with fg := (i - 90 + 8).toNat }
  else if 100 ≤ i ∧ i ≤ 107 then { colours with bg := (i - 100 + 8).toNat }
  else colours

def parseGfx (colours : Colours) (seq : CStr) : Colours :=
  ((Fs.strtokAll [0x6d, 0x3b] (seq.length + 1) seq).map atoi).foldl pick colours

/-- The bytes from the `i`th on, up to one that ends the sequence; it fails when `seq`, with `room`
left, has none for a byte or for the zero behind the last one. -/
def readSeq (tgetc : Nat → UInt8) : (room i : Nat) → Option CStr
  | 0, _ => none
  | room + 1, i =>
      if isterm (tgetc i) then if room = 0 then none else some [tgetc i]
      else (readSeq tgetc room (i + 1)).map (tgetc i :: ·)

/-- `ansi_parse`, which skips the first byte. -/
def ansiParse (tgetc : Nat → UInt8) (colours : Colours) : Option Colours :=
  (readSeq tgetc 32 1).map fun seq =>
    if seq.getLast? = some 0x6d then parseGfx colours (seq.takeWhile (· ≠ 0)) else colours

def Colours.InRange (colours : Colours) : Prop := colours.fg ≤ 15 ∧ colours.bg ≤ 15

theorem pick_inRange {colours : Colours} (inRange : colours.InRange) (i : Int) :
    (pick colours i).InRange := by
  obtain ⟨fg, bg⟩ := inRange
  unfold pick
  repeat' split
  all_goals
    simp only [Colours.InRange]
    omega

theorem readSeq_isSome {tgetc : Nat → UInt8} {room i : Nat} :
    (readSeq tgetc room i).isSome ↔ ∃ k, k + 1 < room ∧ isterm (tgetc (i + k)) := by
  induction room generalizing i with
  | zero => simp [readSeq]
  | succ room ih =>
    rw [readSeq]
    by_cases ends : isterm (tgetc i)
    · rw [if_pos ends]
      by_cases full : room = 0
      · simp [full]
      · rw [if_neg full]
        exact iff_of_true rfl ⟨0, by omega, ends⟩
    · rw [if_neg ends, Option.isSome_map, ih]
      constructor
      · rintro ⟨k, inside, later⟩
        exact ⟨k + 1, by omega, by rwa [Nat.add_left_comm, Nat.add_comm]⟩
      · rintro ⟨_ | k, inside, later⟩
        · exact absurd later ends
        · exact ⟨k, by omega, by rwa [Nat.add_right_comm]⟩

/-- `ansi_parse` returns, and keeps the colours in range, if the sequence ends in 31 bytes. -/
theorem ansiParse_iff (tgetc : Nat → UInt8) (colours : Colours) :
    (∃ after, ansiParse tgetc colours = some after ∧ (colours.InRange → after.InRange)) ↔
      ∃ k ≤ 30, isterm (tgetc (1 + k)) := by
  have returns := @readSeq_isSome tgetc 32 1
  rw [Option.isSome_iff_exists] at returns
  rw [ansiParse]
  constructor
  · rintro ⟨after, returned, _⟩
    obtain ⟨seq, isSeq, _⟩ := Option.map_eq_some_iff.mp returned
    obtain ⟨k, inside, ends⟩ := returns.mp ⟨seq, isSeq⟩
    exact ⟨k, by omega, ends⟩
  · rintro ⟨k, inside, ends⟩
    obtain ⟨seq, isSeq⟩ := returns.mpr ⟨k, by omega, ends⟩
    rw [isSeq]
    refine ⟨_, rfl, fun inRange => ?_⟩
    dsimp only
    split
    · exact foldlRecOn _ pick inRange fun _ inRange i _ => pick_inRange inRange i
    · exact inRange

theorem not_ansiParse : ¬ ∀ tgetc colours,
    ∃ after, ansiParse tgetc colours = some after ∧ (colours.InRange → after.InRange) := by
  intro returns
  obtain ⟨_, ⟨⟩, _⟩ := returns (fun _ => 0x30) ⟨15, 0⟩

end Micro.Term
