import Mathlib.Data.List.Basic
import Mathlib.Data.Set.Insert

/-!
# Ownership ledgers

Items are in use because they are set aside, or because one owner holds them.  A ledger
says that nothing else is in use, that no item has two owners, and that what is set aside
has none.  An item that has been taken and has no owner yet counts as set aside until it
is placed.
-/

namespace Micro.Lib

open List

variable {Item Owner : Type}

/-- The items in use are those set aside and those that have an owner. -/
structure Ledger (aside used : Set Item) (holds : Owner → Item → Prop) : Prop where
  used_eq : used = aside ∪ {item | ∃ owner, holds owner item}
  disjoint : ∀ {owner item}, holds owner item → item ∉ aside
  unique : ∀ {owner other item}, holds owner item → holds other item → owner = other

namespace Ledger

variable {aside used items : Set Item} {holds after new : Owner → Item → Prop} {item : Item}

theorem mem_used (ledger : Ledger aside used holds) :
    item ∈ used ↔ item ∈ aside ∨ ∃ owner, holds owner item := by
  rw [ledger.used_eq]
  rfl

theorem take (ledger : Ledger aside used holds) (free : item ∉ used) :
    Ledger (insert item aside) (insert item used) holds where
  used_eq := by
    rw [ledger.used_eq, Set.insert_union]
  disjoint := by
    intro owner _ held
    rintro (same | old)
    · subst same
      exact free (ledger.mem_used.mpr (.inr ⟨owner, held⟩))
    · exact ledger.disjoint held old
  unique := ledger.unique

/-- Give items that were taken to new owners. -/
theorem place (ledger : Ledger (items ∪ aside) used holds) (fresh : ∀ item ∈ items, item ∉ aside)
    (adds : ∀ owner item, after owner item ↔ holds owner item ∨ new owner item)
    (onto : ∀ item, item ∈ items ↔ ∃ owner, new owner item)
    (injective : ∀ {owner other item}, new owner item → new other item → owner = other) :
    Ledger aside used after where
  used_eq := by
    ext item
    rw [ledger.mem_used]
    constructor
    · rintro ((isNew | isAside) | ⟨owner, held⟩)
      · obtain ⟨owner, isNew⟩ := (onto item).mp isNew
        exact .inr ⟨owner, (adds owner item).mpr (.inr isNew)⟩
      · exact .inl isAside
      · exact .inr ⟨owner, (adds owner item).mpr (.inl held)⟩
    · rintro (isAside | ⟨owner, held⟩)
      · exact .inl (.inr isAside)
      · rcases (adds owner item).mp held with old | isNew
        · exact .inr ⟨owner, old⟩
        · exact .inl (.inl ((onto item).mpr ⟨owner, isNew⟩))
  disjoint := by
    intro owner item held
    rcases (adds owner item).mp held with old | isNew
    · exact fun isAside => ledger.disjoint old (.inr isAside)
    · exact fresh item ((onto item).mpr ⟨owner, isNew⟩)
  unique := by
    intro owner other item held heldOther
    have apart : ∀ {one two}, holds one item → ¬ new two item :=
      fun old isNew => ledger.disjoint old (.inl ((onto item).mpr ⟨_, isNew⟩))
    rcases (adds owner item).mp held with old | isNew
    · rcases (adds other item).mp heldOther with oldOther | isNewOther
      · exact ledger.unique old oldOther
      · exact absurd isNewOther (apart old)
    · rcases (adds other item).mp heldOther with oldOther | isNewOther
      · exact absurd isNew (apart oldOther)
      · exact injective isNew isNewOther

/-- Owners that go away leave their items unused. -/
theorem release (ledger : Ledger aside used holds) {gone : Owner → Prop}
    (keeps : ∀ owner item, after owner item ↔ holds owner item ∧ ¬ gone owner) :
    Ledger aside (used \ {item | ∃ owner, gone owner ∧ holds owner item}) after where
  used_eq := by
    ext item
    simp only [Set.mem_sdiff, ledger.mem_used, keeps]
    constructor
    · rintro ⟨isAside | ⟨owner, held⟩, notGone⟩
      · exact .inl isAside
      · exact .inr ⟨owner, held, fun isGone => notGone ⟨owner, isGone, held⟩⟩
    · rintro (isAside | ⟨owner, held, stays⟩)
      · exact ⟨.inl isAside, fun ⟨_, _, held⟩ => ledger.disjoint held isAside⟩
      · refine ⟨.inr ⟨owner, held⟩, fun ⟨_, isGone, heldOther⟩ => stays ?_⟩
        exact ledger.unique heldOther held ▸ isGone
  disjoint := fun held => ledger.disjoint ((keeps _ _).mp held).1
  unique := fun held heldOther =>
    ledger.unique ((keeps _ _).mp held).1 ((keeps _ _).mp heldOther).1

end Ledger

/-- At least so many items of a range are not in use. -/
def Spare (range used : Set Item) (count : Nat) : Prop :=
  ∃ items : List Item, items.Nodup ∧ items.length = count ∧ ∀ item ∈ items, item ∈ range ∧ item ∉ used

namespace Spare

variable {range used : Set Item} {count : Nat}

theorem exists_free (spare : Spare range used (count + 1)) : ∃ item ∈ range, item ∉ used := by
  obtain ⟨_, _, length, free⟩ := spare
  obtain ⟨item, _, isItems⟩ := exists_cons_of_length_eq_add_one length
  exact ⟨item, free item (by simp [isItems])⟩

theorem mono {fewer : Nat} (spare : Spare range used count) (le : fewer ≤ count) :
    Spare range used fewer := by
  obtain ⟨items, nodup, length, free⟩ := spare
  refine ⟨items.take fewer, nodup.sublist (take_sublist _ _), ?_, ?_⟩
  · rw [length_take, length]
    exact Nat.min_eq_left le
  · exact fun item mem => free item (mem_of_mem_take mem)

/-- One is used up when an item is taken. -/
theorem take (spare : Spare range used (count + 1)) (item : Item) :
    Spare range (insert item used) count := by
  classical
  obtain ⟨items, nodup, length, free⟩ := spare
  have left : Spare range (insert item used) (items.erase item).length := by
    refine ⟨items.erase item, nodup.erase item, rfl, fun other mem => ?_⟩
    obtain ⟨ne, inItems⟩ := nodup.mem_erase_iff.mp mem
    obtain ⟨inRange, unused⟩ := free other inItems
    refine ⟨inRange, ?_⟩
    rintro (same | old)
    · exact ne same
    · exact unused old
  apply left.mono
  have shorter : items.length - 1 ≤ (items.erase item).length := le_length_erase
  rw [length] at shorter
  exact shorter

end Spare

end Micro.Lib
