/-!
# Records laid out one after the other

A format says how long a record is and which records are sound.  Records tile a range of
positions when each begins where the one before it ends, as the entries of a block or the
chunks of a file do.  A list of records that tiles a range is determined by what is read
there, and one record can be replaced by others that tile the place it had.
-/

namespace Micro.Lib

open List

universe u

/-- The length of a record, and the records that may occur. -/
structure Format (Record : Type u) where
  size : Record → Nat
  Fits : Record → Prop
  size_pos : ∀ {record}, Fits record → 0 < size record

variable {Record : Type u} {format : Format Record} {read after : Nat → Record}

/-- Records tile the positions from one to another. -/
def Tiles (format : Format Record) (read : Nat → Record) : (pos stop : Nat) → List Record → Prop
  | pos, stop, [] => pos = stop
  | pos, stop, record :: records =>
      read pos = record ∧ format.Fits record ∧ Tiles format read (pos + format.size record) stop records

namespace Tiles

variable {pos stop : Nat} {records : List Record}

theorem length_le (tiles : Tiles format read pos stop records) : pos + records.length ≤ stop := by
  induction records generalizing pos with
  | nil => exact Nat.le_of_eq tiles
  | cons _ records ih =>
    obtain ⟨_, fits, rest⟩ := tiles
    have later := ih rest
    have pos := format.size_pos fits
    rw [length_cons]
    omega

theorem unique {records others : List Record} {pos : Nat}
    (tiles : Tiles format read pos stop records)
    (tiles' : Tiles format read pos stop others) : records = others := by
  induction records generalizing others pos with
  | nil =>
    have short := tiles'.length_le
    have isStop : pos = stop := tiles
    exact (length_eq_zero_iff.mp (by omega)).symm
  | cons _ records ih =>
    obtain ⟨isRead, _, rest⟩ := id tiles
    cases others with
    | nil =>
      have isStop : pos = stop := tiles'
      have short := tiles.length_le
      rw [length_cons] at short
      omega
    | cons _ others =>
      obtain ⟨isRead', _, rest'⟩ := tiles'
      obtain rfl := isRead.symm.trans isRead'
      rw [ih rest rest']

theorem append_iff {others : List Record} :
    Tiles format read pos stop (records ++ others) ↔
      ∃ middle, Tiles format read pos middle records ∧ Tiles format read middle stop others := by
  induction records generalizing pos with
  | nil =>
    constructor
    · exact fun tiles => ⟨pos, rfl, tiles⟩
    · rintro ⟨middle, here, tiles⟩
      have same : pos = middle := here
      exact same ▸ tiles
  | cons _ records ih =>
    constructor
    · rintro ⟨isRead, fits, rest⟩
      obtain ⟨middle, first, second⟩ := ih.mp rest
      exact ⟨middle, ⟨isRead, fits, first⟩, second⟩
    · rintro ⟨middle, ⟨isRead, fits, first⟩, second⟩
      exact ⟨isRead, fits, ih.mpr ⟨middle, first, second⟩⟩

theorem congr (tiles : Tiles format read pos stop records)
    (same : ∀ at_, pos ≤ at_ → at_ + format.size (read at_) ≤ stop → format.Fits (read at_) →
      after at_ = read at_) :
    Tiles format after pos stop records := by
  induction records generalizing pos with
  | nil => exact tiles
  | cons _ records ih =>
    obtain ⟨isRead, fits, rest⟩ := tiles
    have inside := rest.length_le
    refine ⟨?_, fits, ih rest fun at_ _ => same at_ (by omega)⟩
    rw [same pos (Nat.le_refl _) (by rw [isRead]; omega) (isRead ▸ fits), isRead]

theorem replace {before others new : List Record} {record : Record} {middle : Nat}
    (first : Tiles format read pos middle before)
    (second : Tiles format read middle stop (record :: others))
    (same : ∀ at_, at_ + format.size (read at_) ≤ middle ∨ middle + format.size record ≤ at_ →
      format.Fits (read at_) → after at_ = read at_)
    (placed : Tiles format after middle (middle + format.size record) new) :
    Tiles format after pos stop (before ++ new ++ others) := by
  obtain ⟨_, _, rest⟩ := second
  rw [append_iff]
  refine ⟨middle + format.size record, append_iff.mpr ⟨middle, ?_, placed⟩, ?_⟩
  · exact first.congr fun at_ _ inside fits => same at_ (.inl inside) fits
  · exact rest.congr fun at_ from_ _ fits => same at_ (.inr from_) fits

end Tiles

end Micro.Lib
