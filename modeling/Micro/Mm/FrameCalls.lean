import Mathlib.Data.List.Nodup
import Micro.Lib.Run
import Micro.Mm.Phys

/-!
# Calls of the frame allocator

At boot all frames count as used; `kmain_st2` frees those of the memory map, and `main`
marks the first megabyte as used again.  From then on frames are taken by `mmu_alloc_phys`
and given back by `mmu_free_phys`.

`phys_bmp` has room for 6.1 GiB.  Nothing compares a memory map with that, so a range that
goes beyond it makes `mmu_free_phys` write outside of the array.
-/

namespace Micro.Mm

open Lib List

variable {frame : Nat} {bmp : PhysBmp}

/-! ## Ranges of frames -/

def frameRange (p cnt : Nat) : Set Nat := {frame | p / 0x1000 ≤ frame ∧ frame < p / 0x1000 + cnt}

theorem mem_frameRange {p cnt : Nat} : frame ∈ frameRange p cnt ↔ frame ∈ range' (p / 0x1000) cnt :=
  mem_range'_1.symm

theorem frameRange_one (frame : Nat) : frameRange (frame * 0x1000) 1 = {frame} := by
  ext other
  simp only [frameRange, Set.mem_ofPred_eq, Set.mem_singleton_iff]
  omega

theorem usedFrames_clearBits (frames : List Nat) (bmp : PhysBmp) :
    usedFrames (frames.foldl clearBit bmp) = usedFrames bmp \ {frame | frame ∈ frames} := by
  induction frames generalizing bmp with
  | nil =>
    ext other
    simp
  | cons frame frames ih =>
    rw [foldl_cons, ih, usedFrames_clearBit]
    ext other
    simp [and_assoc]

theorem usedFrames_setBits (frames : List Nat) (bmp : PhysBmp) :
    usedFrames (frames.foldl setBit bmp) = usedFrames bmp ∪ {frame | frame ∈ frames} := by
  induction frames generalizing bmp with
  | nil => simp
  | cons frame frames ih =>
    rw [foldl_cons, ih, usedFrames_setBit]
    ext other
    simp only [Set.mem_union, Set.mem_insert_iff, Set.mem_ofPred_eq, mem_cons]
    tauto

theorem usedFrames_free (bmp : PhysBmp) (p cnt : Nat) :
    usedFrames (mmuFreePhys bmp p cnt) = usedFrames bmp \ frameRange p cnt := by
  rw [mmuFreePhys, usedFrames_clearBits]
  ext frame
  simp only [Set.mem_sdiff, Set.mem_ofPred_eq, mem_frameRange]

theorem usedFrames_allocAt (bmp : PhysBmp) (p cnt : Nat) :
    usedFrames (mmuAllocPhysAt bmp p cnt) = usedFrames bmp ∪ frameRange p cnt := by
  rw [mmuAllocPhysAt, usedFrames_setBits]
  ext frame
  simp only [Set.mem_union, Set.mem_ofPred_eq, mem_frameRange]

/-! ## The memory map -/

structure MmapEnt where
  base : UInt64
  length : UInt64
  type : UInt32
  deriving DecidableEq, Repr

/-- The tags of the boot loader that `kmain_st2` looks at: a memory map, or something else. -/
inductive BootTag where
  | mmap (entries : List MmapEnt)
  | other
  deriving DecidableEq, Repr

/-- `ST2_MMAP_USABLE` or `ST2_MMAP_BOOTLD_RECL` -/
def MmapEnt.isFreed (ent : MmapEnt) : Bool := ent.type = 1 || ent.type = 0x1000

/-- The `cnt` that `kmain_st2` passes, an `unsigned int`. -/
def MmapEnt.cnt (ent : MmapEnt) : Nat := ent.length.toNat / 0x1000 % 2 ^ 32

/-- `phys_bmp` and the indices at which it has been accessed. -/
structure BootFrames where
  bmp : PhysBmp
  touched : List Nat

/-- One round of `mmu_free_phys`: `phys_bmp[it / 8] &= ~(1 << it % 8)` -/
def BootFrames.clearBit (frames : BootFrames) (it : Nat) : BootFrames where
  bmp := Mm.clearBit frames.bmp it
  touched := frames.touched ++ [it / 8]

/-- `mmu_free_phys` -/
def BootFrames.free (frames : BootFrames) (p cnt : Nat) : BootFrames :=
  (List.range' (p / 0x1000) cnt).foldl BootFrames.clearBit frames

/-- The body of the loop over a memory map. -/
def BootFrames.entry (frames : BootFrames) (ent : MmapEnt) : BootFrames :=
  if ent.isFreed then frames.free ent.base.toNat ent.cnt else frames

/-- What `kmain_st2` does with a tag. -/
def BootFrames.tag (frames : BootFrames) : BootTag → BootFrames
  | .mmap entries => entries.foldl BootFrames.entry frames
  | .other => frames

def mmuPhysInit : PhysBmp := fun _ => 0xff#8

/-- `kmain_st2`, up to `main` -/
def kmainSt2 (tags : List BootTag) : BootFrames :=
  tags.foldl BootFrames.tag { bmp := mmuPhysInit, touched := [] }

def mapEntries (tags : List BootTag) : List MmapEnt :=
  tags.flatMap fun
    | .mmap entries => entries
    | .other => []

/-- The memory an entry gives back ends where `phys_bmp` ends, or before. -/
def MmapEnt.Fits (ent : MmapEnt) : Prop :=
  ent.isFreed = true → ent.cnt ≠ 0 → ent.base.toNat / 0x1000 + ent.cnt ≤ 8 * bufSz

instance (ent : MmapEnt) : Decidable ent.Fits := by
  unfold MmapEnt.Fits
  infer_instance

theorem free_touched (frames : BootFrames) (p cnt : Nat) :
    (frames.free p cnt).touched = frames.touched ++ (range' (p / 0x1000) cnt).map (· / 8) := by
  rw [BootFrames.free]
  generalize range' (p / 0x1000) cnt = its
  induction its generalizing frames with
  | nil => simp
  | cons _ its ih => simp [ih, BootFrames.clearBit]

/-- The highest index that a call of `mmu_free_phys` accesses is that of its last frame. -/
theorem range_inside_iff {p cnt : Nat} :
    (∀ index ∈ (range' (p / 0x1000) cnt).map (· / 8), index < bufSz) ↔
      (cnt ≠ 0 → p / 0x1000 + cnt ≤ 8 * bufSz) := by
  simp only [forall_mem_map, mem_range'_1]
  constructor
  · intro inside _
    have last := inside (p / 0x1000 + cnt - 1) (by omega)
    omega
  · omega

theorem entry_inside_iff (frames : BootFrames) (ent : MmapEnt) :
    (∀ index ∈ (frames.entry ent).touched, index < bufSz) ↔
      (∀ index ∈ frames.touched, index < bufSz) ∧ ent.Fits := by
  unfold BootFrames.entry MmapEnt.Fits
  cases ent.isFreed with
  | false => simp
  | true =>
    simp only [if_true, free_touched, forall_mem_append, range_inside_iff, forall_const]

theorem entries_inside_iff (entries : List MmapEnt) (frames : BootFrames) :
    (∀ index ∈ (entries.foldl BootFrames.entry frames).touched, index < bufSz) ↔
      (∀ index ∈ frames.touched, index < bufSz) ∧ ∀ ent ∈ entries, ent.Fits := by
  induction entries generalizing frames with
  | nil => simp
  | cons ent entries ih =>
    rw [foldl_cons, ih, entry_inside_iff, forall_mem_cons, and_assoc]

theorem tags_inside_iff (tags : List BootTag) (frames : BootFrames) :
    (∀ index ∈ (tags.foldl BootFrames.tag frames).touched, index < bufSz) ↔
      (∀ index ∈ frames.touched, index < bufSz) ∧ ∀ ent ∈ mapEntries tags, ent.Fits := by
  induction tags generalizing frames with
  | nil => simp [mapEntries]
  | cons tag tags ih =>
    rw [foldl_cons, ih]
    cases tag with
    | mmap _ =>
      simp only [BootFrames.tag, entries_inside_iff, mapEntries, flatMap_cons,
        forall_mem_append, and_assoc]
    | other => simp only [BootFrames.tag, mapEntries, flatMap_cons, nil_append]

/-- Every index of `phys_bmp` that `kmain_st2` accesses is inside of the array exactly when
every entry that is freed ends at 6.1 GiB or before. -/
theorem boot_map_inside_iff (tags : List BootTag) :
    (∀ index ∈ (kmainSt2 tags).touched, index < bufSz) ↔ ∀ ent ∈ mapEntries tags, ent.Fits := by
  rw [kmainSt2, tags_inside_iff]
  simp

/-- A machine with 8 GiB, of which 5 GiB are above the hole below 4 GiB. -/
def eightGiB : List BootTag :=
  [.other, .mmap [⟨0x100000, 0xbff00000, 1⟩, ⟨0x100000000, 0x140000000, 1⟩]]

/-- The memory map of a machine with 8 GiB makes `kmain_st2` write outside of `phys_bmp`. -/
theorem boot_map_outside : ¬ ∀ index ∈ (kmainSt2 eightGiB).touched, index < bufSz := by
  rw [kmainSt2, tags_inside_iff]
  decide

/-! ## Taking and giving back -/

inductive PhysCall where
  | allocPhys
  | freePhys (p : UInt64) (cnt : UInt32)
  deriving DecidableEq, Repr

/-- `phys_bmp` and the frames handed out and not freed. -/
structure PhysSession where
  bmp : PhysBmp
  out : List Nat

/-- The caller of `mmu_alloc_phys` keeps the frame it is given, if it is given one. -/
def PhysSession.take (session : PhysSession) (result : PhysBmp × Nat) : PhysSession where
  bmp := result.1
  out := if result.2 = 0 then session.out else result.2 / 0x1000 :: session.out

def PhysSession.call (session : PhysSession) : PhysCall → Option PhysSession
  | .allocPhys => some (session.take (mmuAllocPhys session.bmp))
  | .freePhys p cnt =>
      some
        { bmp := mmuFreePhys session.bmp p.toNat cnt.toNat
          out := session.out.filter fun frame =>
            frame ∉ List.range' (p.toNat / 0x1000) cnt.toNat }

/-- Only frames that were handed out are given back. -/
def GivesBack (session : PhysSession) : PhysCall → Prop
  | .allocPhys => True
  | .freePhys p cnt => ∀ frame ∈ frameRange p.toNat cnt.toNat, frame ∈ session.out

/-- The result of `mmu_alloc_phys`: the first frame that is not used is taken, or the result
is 0 because there is none. -/
def TakesLeast (bmp : PhysBmp) (result : PhysBmp × Nat) : Prop :=
  (∃ frame, IsLeast {frame | frame ∈ allFrames ∧ frame ∉ usedFrames bmp} frame ∧
    result.2 = 0x1000 * frame ∧ result.2 ≠ 0 ∧
    usedFrames result.1 = insert frame (usedFrames bmp)) ∨
  allFrames ⊆ usedFrames bmp ∧ result = (bmp, 0)

/-- The frames handed out are different, and nothing else uses them. -/
structure HandedOut (start : PhysBmp) (session : PhysSession) : Prop where
  used : usedFrames session.bmp = usedFrames start ∪ {frame | frame ∈ session.out}
  distinct : session.out.Nodup
  fresh : ∀ frame ∈ session.out, frame ∈ allFrames ∧ frame ∉ usedFrames start

theorem takesLeast (low : 0 ∈ usedFrames bmp) : TakesLeast bmp (mmuAllocPhys bmp) := by
  rw [mmuAllocPhys]
  cases found : firstClear bmp with
  | none => exact .inr ⟨fun frame inRange => firstClear_none found inRange, rfl⟩
  | some frame =>
    obtain ⟨inRange, free⟩ := firstClear_some found
    have nonzero : frame ≠ 0 := fun zero => free (zero ▸ low)
    refine .inl ⟨frame, ⟨⟨inRange, free⟩, ?_⟩, Nat.mul_comm _ _,
      Nat.mul_ne_zero nonzero (by decide), ?_⟩
    · rintro _ ⟨_, otherFree⟩
      exact Nat.not_lt.mp fun below => otherFree (firstClear_least found below)
    · rw [takeFrame, usedFrames_allocAt, frameRange_one, Set.union_singleton]

/-- The first frame that is not used is the one taken. -/
theorem mmuAllocPhys_eq (inRange : frame ∈ allFrames) (free : frame ∉ usedFrames bmp)
    (below : ∀ other < frame, other ∈ usedFrames bmp) :
    mmuAllocPhys bmp = (mmuAllocPhysAt bmp (frame * 0x1000) 1, frame * 0x1000) := by
  rw [mmuAllocPhys]
  cases found : firstClear bmp with
  | none => exact absurd (firstClear_none found inRange) free
  | some first =>
    have isFirst : first = frame := by
      rcases Nat.lt_trichotomy first frame with less | same | more
      · exact absurd (below first less) (firstClear_some found).2
      · exact same
      · exact absurd (firstClear_least found more) free
    rw [isFirst, takeFrame]

variable {start : PhysBmp} {session : PhysSession}

theorem HandedOut.initial (start : PhysBmp) : HandedOut start ⟨start, []⟩ where
  used := by simp
  distinct := nodup_nil
  fresh := by simp

theorem HandedOut.take (handed : HandedOut start session) {result : PhysBmp × Nat}
    (taken : TakesLeast session.bmp result) : HandedOut start (session.take result) := by
  rcases taken with ⟨frame, ⟨⟨inRange, free⟩, -⟩, isFrame, nonzero, marks⟩ | ⟨-, rfl⟩
  · have isOut : (session.take result).out = frame :: session.out := by
      rw [PhysSession.take, if_neg nonzero, isFrame, Nat.mul_div_cancel_left _ (by decide)]
    have notUsed : frame ∉ usedFrames start ∧ frame ∉ session.out := by
      rw [handed.used] at free
      exact ⟨fun used => free (.inl used), fun out => free (.inr out)⟩
    constructor
    · rw [isOut]
      apply marks.trans
      rw [handed.used]
      ext other
      simp only [mem_cons]
      exact or_left_comm
    · rw [isOut]
      exact nodup_cons.mpr ⟨notUsed.2, handed.distinct⟩
    · rw [isOut]
      exact forall_mem_cons.mpr ⟨⟨inRange, notUsed.1⟩, handed.fresh⟩
  · simpa [PhysSession.take] using handed

theorem HandedOut.freePhys (handed : HandedOut start session) {p : UInt64} {cnt : UInt32}
    (givesBack : GivesBack session (.freePhys p cnt)) :
    ∃ next, session.call (.freePhys p cnt) = some next ∧ HandedOut start next := by
  refine ⟨_, rfl, ?_, handed.distinct.filter _, ?_⟩
  · rw [usedFrames_free, handed.used]
    ext frame
    have ran : frame ∈ frameRange p.toNat cnt.toNat → frame ∉ usedFrames start :=
      fun inRange => (handed.fresh frame (givesBack frame inRange)).2
    simp only [Set.mem_sdiff, Set.mem_union, Set.mem_ofPred_eq, mem_filter,
      decide_eq_true_eq, ← mem_frameRange]
    tauto
  · exact fun frame mem => handed.fresh frame (mem_filter.mp mem).1

/-- Whatever the frames in use at the start, as long as those of the first megabyte are among
them: after every sequence of calls that give back only what was handed out, the frames
handed out are different from one another and from those in use at the start;
`mmu_alloc_phys` takes the first frame not in use; and `mmu_free_phys` frees its range. -/
theorem frames_handed_out (start : PhysBmp) (low : ∀ frame < 256, frame ∈ usedFrames start)
    (calls : List PhysCall) (givesBack : Permitted PhysSession.call GivesBack ⟨start, []⟩ calls) :
    ∃ session, drive PhysSession.call ⟨start, []⟩ calls = some session ∧
      HandedOut start session ∧ TakesLeast session.bmp (mmuAllocPhys session.bmp) ∧
      ∀ p cnt, GivesBack session (.freePhys p cnt) →
        usedFrames (mmuFreePhys session.bmp p.toNat cnt.toNat) =
          usedFrames session.bmp \ frameRange p.toNat cnt.toNat := by
  have total : ∀ session call, HandedOut start session → GivesBack session call →
      ∃ next, session.call call = some next ∧ HandedOut start next := by
    intro session call handed permitted
    cases call with
    | allocPhys =>
      have zero : 0 ∈ usedFrames session.bmp := by
        rw [handed.used]
        exact .inl (low 0 (by decide))
      exact ⟨_, rfl, handed.take (takesLeast zero)⟩
    | freePhys p cnt => exact handed.freePhys permitted
  obtain ⟨session, driven, handed⟩ := drive_total total calls _ (.initial start) givesBack
  refine ⟨session, driven, handed, takesLeast ?_, fun p cnt _ => usedFrames_free _ _ _⟩
  rw [handed.used]
  exact .inl (low 0 (by decide))

/-- `phys_bmp` when `main` has marked the first megabyte: `mmu_alloc_phys_at(0, 0x100)`, with
all other frames free. -/
def lowInUse : PhysBmp := mmuAllocPhysAt (fun _ => 0#8) 0 0x100

theorem mem_lowInUse : frame ∈ usedFrames lowInUse ↔ frame < 256 := by
  rw [lowInUse, usedFrames_allocAt]
  simp [mem_usedFrames, frameRange]

/-- Two frames are taken and given back with one call. -/
theorem frames_handed_out_returned :
    ∃ session, drive PhysSession.call ⟨lowInUse, []⟩
        [.allocPhys, .allocPhys, .freePhys 0x100000 2] = some session ∧
      HandedOut lowInUse session ∧ TakesLeast session.bmp (mmuAllocPhys session.bmp) ∧
      ∀ p cnt, GivesBack session (.freePhys p cnt) →
        usedFrames (mmuFreePhys session.bmp p.toNat cnt.toNat) =
          usedFrames session.bmp \ frameRange p.toNat cnt.toNat := by
  have first : mmuAllocPhys lowInUse = (mmuAllocPhysAt lowInUse 0x100000 1, 0x100000) := by
    refine @mmuAllocPhys_eq 256 _ (mem_allFrames.mpr (by decide)) ?_ ?_
    · simp [mem_lowInUse]
    · simp [mem_lowInUse]
  have second : mmuAllocPhys (mmuAllocPhysAt lowInUse 0x100000 1) =
      (mmuAllocPhysAt (mmuAllocPhysAt lowInUse 0x100000 1) 0x101000 1, 0x101000) := by
    refine @mmuAllocPhys_eq 257 _ (mem_allFrames.mpr (by decide)) ?_ ?_
    · simp [usedFrames_allocAt, mem_lowInUse, frameRange]
    · simp only [usedFrames_allocAt, mem_lowInUse, frameRange, Set.mem_union, Set.mem_ofPred_eq]
      omega
  apply frames_handed_out lowInUse (fun frame => mem_lowInUse.mpr)
  refine ⟨trivial, fun session called => ?_⟩
  simp only [PhysSession.call, first, Option.some.injEq] at called
  subst called
  refine ⟨trivial, fun session called => ?_⟩
  simp only [PhysSession.call, PhysSession.take, second, Option.some.injEq] at called
  subst called
  refine ⟨fun frame inRange => ?_, fun _ _ => trivial⟩
  obtain ⟨low, high⟩ := inRange
  simp at low high ⊢
  omega

end Micro.Mm
