import Micro.Fat.Mkdir

/-!
# Removing an entry

`fat_unlink` clears the first entry of a directory whose eight and three characters are those
of the name.  It does not look at long names, so that the entry that is cleared need not be the
one that `fat_lookup` finds.
-/

namespace Micro.Fat

open Kern Lib List Option

variable {after directory : List Buf} {j cnt : Nat} {buf : Buf}

/-- The entry `fat_unlink` looks for. -/
def removes (name : CStr) (slot : Buf) : Bool := removable slot && fatNameCmp slot name

/-- The entries of a directory with the first such entry cleared. -/
def clearFirst (name : CStr) : List Buf → List Buf
  | [] => []
  | slot :: rest => if removes name slot then bufOf removedDirent :: rest else slot :: clearFirst name rest

/-- `fat_lookup` finds an entry with the name, and would find none if the first entry with the same
characters were cleared. -/
def HoldsOnce (name : CStr) (directory : List Buf) : Prop :=
  (∃ slot, lookupLoop name (some []) directory = some (some slot)) ∧
    lookupLoop name (some []) (clearFirst name directory) = some none

section Unlink

variable {vol : Volume} {clusters head : Nat} {chain : List Nat} {name : CStr}

theorem clearFirst_append {slot : Buf} (isFirst : removes name slot = true) {before : List Buf}
    (others : ∀ other ∈ before, removes name other = false) :
    clearFirst name (before ++ slot :: after) = before ++ bufOf removedDirent :: after := by
  induction before with
  | nil => exact by simp [clearFirst, isFirst]
  | cons first before ih =>
    rw [cons_append, clearFirst, others first mem_cons_self,
      ih fun other mem => others other (mem_cons_of_mem _ mem)]
    rfl

theorem clearFirst_prepend {before : List Buf}
    (others : ∀ other ∈ before, removes name other = false) :
    clearFirst name (before ++ after) = before ++ clearFirst name after := by
  induction before with
  | nil => rfl
  | cons first before ih =>
    rw [cons_append, clearFirst, others first mem_cons_self,
      ih fun other mem => others other (mem_cons_of_mem _ mem)]
    rfl

theorem unlinkLoop_here {c : Nat} (two : 2 ≤ c)
    (isFirst : (range 16).find? (fun j => removes name (slotAt (vol.disk (clus2lba vol c)) j)) =
      some j) :
    unlinkLoop vol name (cnt + 1) c = some (vol.on (Function.update vol.disk (clus2lba vol c)
      (put (vol.disk (clus2lba vol c)) (32 * j) removedDirent)), 0) := by
  simp only [removes] at isFirst
  simp only [unlinkLoop, readCluster, if_pos two, bind_some, isFirst]
  rfl

theorem unlinkLoop_next {c : Nat} (two : 2 ≤ c)
    (isNone : (range 16).find? (fun j => removes name (slotAt (vol.disk (clus2lba vol c)) j)) =
      none) : unlinkLoop vol name (cnt + 1) c = unlinkLoop vol name cnt (fatTableRead vol c) := by
  simp only [removes] at isNone
  simp only [unlinkLoop, readCluster, if_pos two, bind_some, isNone]

theorem removes_none (isNone : (range 16).find? (fun j => removes name (slotAt buf j)) = none) :
    ∀ slot ∈ slots buf, removes name slot = false := by
  intro slot isMem
  obtain ⟨j, inside, rfl⟩ := mem_map.mp isMem
  simpa using find?_eq_none.mp isNone j inside

theorem clearFirst_here {rest : List Buf}
    (isFirst : (range 16).find? (fun j => removes name (slotAt buf j)) = some j) :
    ((put buf (32 * j) removedDirent :: rest).flatMap slots).map cut =
      (clearFirst name ((buf :: rest).flatMap slots)).map cut := by
  obtain ⟨before, after, isSlots, others, found, isWritten⟩ := slots_put_first isFirst
    (show removedDirent.length = 32 by rfl)
  have isCut : cut (bufOf removedDirent) = bufOf removedDirent := by
    have read := @slice_put 0 removedDirent (fun _ => 0)
    exact congrArg bufOf read
  have isDirectory : (buf :: rest).flatMap slots =
      before ++ slotAt buf j :: (after ++ rest.flatMap slots) := by
    simp [isSlots]
  rw [isDirectory, clearFirst_append found others, flatMap_cons, map_append, isWritten]
  simp [isCut]

theorem fatLookup_ok_iff (isSlots : dirSlots vol head = some directory) :
    (∃ found, fatLookup vol head name = some (.ok found)) ↔
      ∃ slot, lookupLoop name (some []) directory = some (some slot) := by
  simp only [fatLookup, isSlots, bind_some]
  rcases lookupLoop name (some []) directory with _ | _ | slot <;> simp

theorem fatLookup_error_iff (isSlots : dirSlots vol head = some directory) :
    (∃ e, fatLookup vol head name = some (.error e)) ↔
      lookupLoop name (some []) directory = some none := by
  simp only [fatLookup, isSlots, bind_some]
  rcases lookupLoop name (some []) directory with _ | _ | _ <;> simp

variable (formatted : Formatted vol clusters) (isChain : Chain vol clusters head chain)
include formatted isChain

/-- What the loop of `fat_unlink` leaves: a directory with the entry cleared. -/
theorem unlinkLoop_chain : chain.Nodup →
    ∃ disk written r, unlinkLoop vol name chain.length head = some (vol.on disk, r) ∧
      Written vol clusters chain written disk ∧
      (written.flatMap slots).map cut =
        (clearFirst name ((sectors vol chain).flatMap slots)).map cut := by
  induction isChain with
  | @last c two inside _ =>
    intro nodup
    cases isFirst : (range 16).find? fun j =>
        removes name (slotAt (vol.disk (clus2lba vol c)) j) with
    | some j =>
      exact ⟨_, _, _, unlinkLoop_here two isFirst,
        .update formatted two inside (by simp) not_mem_nil, clearFirst_here isFirst⟩
    | none =>
      refine ⟨vol.disk, _, _, unlinkLoop_next two isFirst, ⟨rfl, fun _ _ => rfl,
        fun _ _ _ _ => rfl⟩, ?_⟩
      have same : clearFirst name ((sectors vol [c]).flatMap slots) =
          (sectors vol [c]).flatMap slots := by
        simpa [sectors, clearFirst] using @clearFirst_prepend [] name _ (removes_none isFirst)
      rw [same]
      rfl
  | @link c _ _ two inside linked isRest ih =>
    intro nodup
    obtain ⟨apart, nodup⟩ := nodup_cons.mp nodup
    cases isFirst : (range 16).find? fun j =>
        removes name (slotAt (vol.disk (clus2lba vol c)) j) with
    | some j =>
      refine ⟨_, _, _, unlinkLoop_here two isFirst,
        .update formatted two inside ?_ apart, clearFirst_here isFirst⟩
      exact fun d isMem => ⟨(isRest.member d isMem).1, (isRest.member d isMem).2.1⟩
    | none =>
      obtain ⟨disk, written, r, unlinked, isWritten, isCleared⟩ := ih nodup
      refine ⟨disk, _, r, ?_, isWritten.cons two inside apart, ?_⟩
      · rw [length_cons, unlinkLoop_next two isFirst, linked, unlinked]
      · rw [sectors_cons, flatMap_cons, flatMap_cons, map_append, isCleared,
          clearFirst_prepend (removes_none isFirst), map_append]

/-- What it takes for a name to be found before `fat_unlink` and not after it. -/
theorem fatUnlink_removes_iff (nodup : chain.Nodup) :
    (∃ found done e, fatLookup vol head name = some (.ok found) ∧
        fatUnlink vol head name = some done ∧ fatLookup done.1 head name = some (.error e)) ↔
      HoldsOnce name ((sectors vol chain).flatMap slots) := by
  obtain ⟨disk, written, r, unlinked, isWritten, isCleared⟩ :=
    @unlinkLoop_chain _ _ _ _ name formatted isChain nodup
  have isUnlink : fatUnlink vol head name = some (vol.on disk, r) := by
    rw [fatUnlink, fatCchainCnt,
      chainCount_chain formatted isChain (isChain.length_le_fuel formatted nodup), bind_some,
      unlinked]
  have read := dirSlots_chain formatted isChain nodup
  have readAfter := dirSlots_chain (formatted.on disk) (isWritten.isChain formatted isChain) nodup
  rw [isWritten.contents] at readAfter
  -- looking up does not depend on what follows an entry in its sector
  have missing : lookupLoop name (some []) (written.flatMap slots) = some none ↔
      lookupLoop name (some []) (clearFirst name ((sectors vol chain).flatMap slots)) =
        some none := by
    have same := congrArg (lookupLoop name (some [])) isCleared
    rw [lookupLoop_cut, lookupLoop_cut] at same
    have cutNone : ∀ result : Option (Option Buf),
        result.map (Option.map cut) = some none ↔ result = some none := by
      intro result
      rcases result with _ | _ | slot <;> simp
    rw [← cutNone, same, cutNone]
  rw [HoldsOnce, ← fatLookup_ok_iff read, ← missing, ← fatLookup_error_iff readAfter]
  constructor
  · rintro ⟨found, done, e, looked, isDone, isError⟩
    cases isUnlink.symm.trans isDone
    exact ⟨⟨found, looked⟩, e, isError⟩
  · rintro ⟨⟨found, looked⟩, e, isError⟩
    exact ⟨found, _, e, looked, isUnlink, isError⟩

end Unlink

theorem foo_holdsOnce : HoldsOnce [0x46, 0x4f, 0x4f, 0x2e, 0x54, 0x58, 0x54]
    ((sectors (oneDirectory [fooEntry]) [2]).flatMap slots) := by
  have isLba : clus2lba (oneDirectory [fooEntry]) 2 = 2 := by simp [clus2lba, oneDirectory]
  have isSectors : sectors (oneDirectory [fooEntry]) [2] = [bufOf [fooEntry].flatten] := by
    rw [sectors, map_singleton, isLba]
    rfl
  rw [isSectors]
  constructor
  · have isFound : (lookupLoop [0x46, 0x4f, 0x4f, 0x2e, 0x54, 0x58, 0x54] (some [])
        ([bufOf [fooEntry].flatten].flatMap slots)).join.isSome = true := by
      decide +kernel
    rcases isSome_iff_exists.mp isFound with ⟨slot, isSlot⟩
    exact ⟨slot, join_eq_some_iff.mp isSlot⟩
  · have isMissing : (lookupLoop [0x46, 0x4f, 0x4f, 0x2e, 0x54, 0x58, 0x54] (some [])
        (clearFirst [0x46, 0x4f, 0x4f, 0x2e, 0x54, 0x58, 0x54]
          ([bufOf [fooEntry].flatten].flatMap slots))).map isSome = some false := by
      decide +kernel
    rcases map_eq_some_iff.mp isMissing with ⟨result, isResult, isNone⟩
    cases result with
    | none => exact isResult
    | some slot => cases isNone

end Micro.Fat
