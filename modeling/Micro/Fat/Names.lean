import Mathlib.Data.List.TakeWhile
import Micro.Fat.Model

/-!
# Names of eight and three characters

The name and the extension of a directory entry are padded with blanks; in a string they stand
on both sides of a dot.  `from8dot3` and `to8dot3` are inverse to one another where neither part
has a blank, a dot or a zero in it.
-/

namespace Micro.Fat

open Kern Lib List

/-- Characters of a name, at least and at most so many. -/
structure Plain (least most : Nat) (s : CStr) : Prop where
  least : least ≤ s.length
  most : s.length ≤ most
  chars : ∀ c ∈ s, c ≠ 0 ∧ c ≠ 0x20 ∧ c ≠ 0x2e

/-- The two parts of a name. -/
structure Parts (base ext : CStr) : Prop where
  base : Plain 1 8 base
  ext : Plain 0 3 ext

/-- The characters of a field of some width. -/
def padded (width : Nat) (s : CStr) : CStr := s ++ List.replicate (width - s.length) 0x20

/-- `base` or `base.ext` -/
def dotted (base ext : CStr) : CStr := if ext = [] then base else base ++ [0x2e] ++ ext

/-- The name and the extension of an entry. -/
def Spells (slot : Buf) (fields : CStr × CStr) : Prop :=
  slice slot 0 8 = fields.1 ∧ slice slot 8 3 = fields.2

/-- A run of characters other than some `c` in front of what begins with `c` or is empty. -/
theorem takeWhile_plain {s rest : CStr} {c : UInt8} (plain : ∀ d ∈ s, d ≠ c)
    (ends : ∀ d ∈ rest.head?, d = c) : (s ++ rest).takeWhile (fun d => d ≠ c) = s := by
  rw [takeWhile_append_of_pos (by simpa using plain)]
  cases rest with
  | nil => simp
  | cons d rest => simp [ends d rfl]

variable {base ext : CStr} {slot : Buf}

theorem Plain.unpadded {least most pos : Nat} {s : CStr} (plain : Plain least most s)
    (isField : slice slot pos most = padded most s) : unpadded slot pos most = s := by
  rw [Fat.unpadded, isField]
  apply takeWhile_plain fun c mem => (plain.chars c mem).2.1
  intro c isHead
  exact eq_of_mem_replicate (mem_of_mem_head? isHead)

theorem Parts.from8dot3 (parts : Parts base ext) (spells : Spells slot (padded 8 base, padded 3 ext)) :
    from8dot3 slot = dotted base ext := by
  have noZero : ∀ c ∈ dotted base ext, c ≠ 0 := by
    intro c mem
    unfold dotted at mem
    split at mem
    · exact (parts.base.chars c mem).1
    · simp only [mem_append, mem_singleton] at mem
      rcases mem with (inBase | rfl) | inExt
      · exact (parts.base.chars c inBase).1
      · decide
      · exact (parts.ext.chars c inExt).1
  simp only [Fat.from8dot3, parts.base.unpadded spells.1, parts.ext.unpadded spells.2]
  change (dotted base ext).takeWhile _ = dotted base ext
  rw [takeWhile_eq_self_iff]
  exact fun c mem => decide_eq_true (noZero c mem)

theorem dotted_eq (base ext : CStr) : ∃ rest, dotted base ext = base ++ rest ∧
    (∀ c ∈ rest.head?, c = 0x2e) ∧ rest.drop 1 = ext := by
  by_cases none_ : ext = []
  · exact ⟨[], by simp [dotted, none_], by simp, none_.symm⟩
  · exact ⟨0x2e :: ext, by simp [dotted, none_], by simp, rfl⟩

theorem Parts.to8dot3 (parts : Parts base ext) :
    to8dot3 (dotted base ext) = (padded 8 base, padded 3 ext) := by
  obtain ⟨rest, isName, ends, isExt⟩ := dotted_eq base ext
  have upTo := takeWhile_plain (fun c mem => (parts.base.chars c mem).2.2) ends
  have behind : ((base ++ rest).drop (base.length + 1)).take 3 = ext := by
    rw [← drop_drop, drop_left, isExt, take_of_length_le parts.ext.most]
  simp only [Fat.to8dot3, isName, upTo, Nat.min_eq_left parts.base.most, take_left, behind, padded]

/-- Names of eight and three characters survive both conversions, and an entry is taken for a name
exactly when it is the name the entry is listed under. -/
theorem names_round_trip (parts : Parts base ext) :
    (∀ slot, Spells slot (padded 8 base, padded 3 ext) → Spells slot (to8dot3 (from8dot3 slot))) ∧
      (∀ slot, Spells slot (to8dot3 (dotted base ext)) → from8dot3 slot = dotted base ext) ∧
      ∀ slot base' ext', Parts base' ext' → Spells slot (padded 8 base', padded 3 ext') →
        (fatNameCmp slot (dotted base ext) = true ↔ dotted base ext = from8dot3 slot) := by
  refine ⟨fun slot spells => ?_, fun slot spells => ?_, fun slot base' ext' parts' spells => ?_⟩
  · rwa [parts.from8dot3 spells, parts.to8dot3]
  · rw [parts.to8dot3] at spells
    exact parts.from8dot3 spells
  · have compared : fatNameCmp slot (dotted base ext) = true ↔ Spells slot (to8dot3 (dotted base ext)) := by
      simp [fatNameCmp, Spells]
    rw [compared, parts.to8dot3]
    constructor
    · exact fun same => (parts.from8dot3 same).symm
    · intro same
      rw [parts'.from8dot3 spells] at same
      rw [← parts.to8dot3, same, parts'.to8dot3]
      exact spells

/-- `A.TXT` -/
theorem names_round_trip_txt : from8dot3 (put (fun _ => 0x20) 0
    [0x41, 0x20, 0x20, 0x20, 0x20, 0x20, 0x20, 0x20, 0x54, 0x58, 0x54]) =
      [0x41, 0x2e, 0x54, 0x58, 0x54] :=
  (@names_round_trip [0x41] [0x54, 0x58, 0x54]
    ⟨⟨by decide, by decide, by simp⟩, ⟨by decide, by decide, by simp⟩⟩).2.1 _ ⟨by decide, by decide⟩

end Micro.Fat
