import Micro.Fs.Initramfs

/-!
# ACPI tables

`acpi_find` searches the tables that the RSDT or the XSDT points to.  It counts the pointers of both
as ones of four bytes, and `acpi_init` has mapped only the page in which the table begins.
-/

namespace Micro.Kern

open Lib Fs.Initrd

section Acpi

variable (rev mmio : Nat) (table : Buf) (header : Nat → Vector UInt8 4) (sig : Vector UInt8 4)

/-- `hdr.len` -/
def hdrLen : Nat := le32 table 4

/-- `sdts[i]` of the RSDT or the XSDT -/
def sdts (i : Nat) : Nat := if rev = 0 then le32 table (36 + 4 * i) else le64 table (36 + 8 * i)

/-- The difference is one of 64 bits, the count one of 32. -/
def entries : Nat := (hdrLen table + 2 ^ 64 - 36) % 2 ^ 64 / 4 % 2 ^ 32

/-- The bytes of a pointer. -/
def width : Nat := if rev = 0 then 4 else 8

/-- The bytes that `mmu_map_mmio(mmio, 1)` has mapped from the table at `mmio` on. -/
def mappedBytes : Nat := 0x1000 - mmio % 0x1000

/-- The loop of `acpi_find` over the entries to go: those that it inspects and the table it returns,
where `header` is the signature of the table at an address.  There is no result when an entry lies
behind the page that is mapped. -/
def acpiLoop : List Nat → List Nat × Option (Option Nat)
  | [] => ([], some none)
  | i :: rest =>
      let h := sdts rev table i
      if mappedBytes mmio < 36 + width rev * (i + 1) then ([i], none)
      else if strncmp (header h).toList sig.toList 4 = 0 then ([i], some (some h))
      else (i :: (acpiLoop rest).1, (acpiLoop rest).2)

/-- `acpi_find` with the table at `mmio` -/
def acpiFind : List Nat × Option (Option Nat) :=
  if mappedBytes mmio < 8 then ([], none)
  else acpiLoop rev mmio table header sig (List.range (entries table))

/-- The number of pointers in the table. -/
def stored : Nat := (hdrLen table - 36) / width rev

/-- The number of pointers behind the header that the page holds. -/
def mapped : Nat := (mappedBytes mmio - 36) / width rev

/-- No more than the table is read, and the first table with the signature is returned. -/
def SearchesTable : Prop :=
  (∀ i ∈ (acpiFind rev mmio table header sig).1, 36 + width rev * (i + 1) ≤ hdrLen table) ∧
    (acpiFind rev mmio table header sig).2 =
      some (((List.range (stored rev table)).map (sdts rev table)).find? (header · = sig))

end Acpi

section

variable {rev mmio : Nat} {table : Buf} {header : Nat → Vector UInt8 4} {sig : Vector UInt8 4}

theorem signature_eq_iff {h : Nat} :
    strncmp (header h).toList sig.toList 4 = 0 ↔ header h = sig := by
  have same := @strncmp_eq_zero (header h).toList sig.toList (by simp)
  rwa [Vector.length_toList, Vector.toList_inj] at same

theorem lt_mapped_iff {i : Nat} :
    mappedBytes mmio < 36 + width rev * (i + 1) ↔ ¬ i < mapped rev mmio := by
  unfold mapped width
  split <;> omega

/-- The entries that follow a hit are not inspected. -/
theorem acpiLoop_append {first : List Nat} (inPage : ∀ i ∈ first, i < mapped rev mmio)
    (rest : List Nat) :
    acpiLoop rev mmio table header sig (first ++ rest) =
      if ∃ i ∈ first, header (sdts rev table i) = sig then acpiLoop rev mmio table header sig first
      else (first ++ (acpiLoop rev mmio table header sig rest).1,
        (acpiLoop rev mmio table header sig rest).2) := by
  induction first with
  | nil => simp
  | cons i first ih =>
    rw [List.forall_mem_cons] at inPage
    simp only [List.cons_append, acpiLoop, lt_mapped_iff, inPage.1, not_true_eq_false, if_false,
      signature_eq_iff, ih inPage.2, List.exists_mem_cons_iff]
    by_cases hit : header (sdts rev table i) = sig
    · simp [hit]
    · simp only [hit, if_false, false_or]
      split <;> rfl

theorem acpiLoop_head {i : Nat} {rest : List Nat} :
    i ∈ (acpiLoop rev mmio table header sig (i :: rest)).1 := by
  simp only [acpiLoop]
  split_ifs <;> exact List.mem_cons_self

theorem acpiLoop_spec {indices : List Nat} (inPage : ∀ i ∈ indices, i < mapped rev mmio) :
    (acpiLoop rev mmio table header sig indices).1 ⊆ indices ∧
      (acpiLoop rev mmio table header sig indices).2 =
        some ((indices.map (sdts rev table)).find? (header · = sig)) := by
  induction indices with
  | nil => simp [acpiLoop]
  | cons i indices ih =>
    rw [List.forall_mem_cons] at inPage
    simp only [acpiLoop, lt_mapped_iff, inPage.1, not_true_eq_false, if_false, signature_eq_iff,
      List.map_cons]
    by_cases hit : header (sdts rev table i) = sig
    · simp [hit]
    · rw [if_neg hit, List.find?_cons_of_neg (by simpa using hit)]
      exact ⟨List.cons_subset_cons i (ih inPage.2).1, (ih inPage.2).2⟩

theorem lt_stored_iff {i : Nat} :
    36 + width rev * (i + 1) ≤ hdrLen table ↔ i < stored rev table := by
  unfold stored width
  split <;> omega

theorem stored_le_entries : stored rev table ≤ entries table := by
  have small := @le32_lt 4 table
  unfold entries stored width hdrLen
  split <;> omega

theorem entries_le_iff : entries table ≤ stored rev table ↔
    36 ≤ hdrLen table ∧ (rev = 0 ∨ hdrLen table < 40) := by
  have small := @le32_lt 4 table
  unfold entries stored width hdrLen
  split <;> omega

end

end Micro.Kern
