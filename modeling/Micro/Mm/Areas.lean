import Mathlib.Data.List.InsertIdx
import Micro.Lib.Run
import Micro.Mm.VmMap

/-!
# The areas of an address space

`vm_map_alloc` and `vm_map_allocat` keep the list of areas sorted and its areas
disjoint.  Each walks the list once; what the walk needs to know about the areas it has
passed is that they end at or below the base in hand.
-/

namespace Micro.Mm

open Kern Lib List

variable {after before : List VmArea} {base end_ : Nat} {map : VmMap}

/-- The interval `[base, end_)` and an area have an address in common. -/
def Meets (base end_ : Nat) (area : VmArea) : Prop :=
  ∃ address, base ≤ address ∧ address < end_ ∧ area.base ≤ address ∧ address < area.end_

/-- Strictly sorted by base, and pairwise disjoint. -/
def SortedDisjoint (areas : List VmArea) : Prop :=
  areas.Pairwise fun area later =>
    area.base < later.base ∧ ¬ Meets area.base area.end_ later

/-- No area meets the interval. -/
def Free (areas : List VmArea) (base end_ : Nat) : Prop := ∀ area ∈ areas, ¬ Meets base end_ area

/-! ## Calls -/

inductive AreaCall where
  | alloc (size : Nat)
  | allocat (base size : Nat)
  deriving DecidableEq, Repr

/-- One call; an address space is left as it is when the call returns `NULL`. -/
def areaStep (map : VmMap) : AreaCall → Option VmMap
  | .alloc size => some ((vmMapAlloc map size).elim map Prod.fst)
  | .allocat base size => some ((vmMapAllocat map base size).elim map Prod.fst)

/-- The bases that the scan of `vm_map_alloc` forms an end for. -/
def allocBases (size : Nat) : List VmArea → Nat → List Nat
  | [], base => [base]
  | area :: areas, base =>
      if area.base ≥ addWord base size then [base]
      else if intersects base (addWord base size) area then
        base :: allocBases size areas area.end_
      else allocBases size areas base

/-- The call asks for a size, and no sum it forms exceeds a word. -/
def InRange (map : VmMap) : AreaCall → Prop
  | .alloc size =>
      0 < size ∧ ∀ base ∈ allocBases size map.vmAreas.items 0x1000, base + size < 2 ^ 64
  | .allocat base size => 0 < size ∧ base + size < 2 ^ 64

/-- A call added one area, and returned it. -/
def Adds (map next : VmMap) (index base end_ : Nat) : Prop :=
  next.vmAreas.items.Perm (⟨base, end_, none⟩ :: map.vmAreas.items) ∧
    next.vmAreas.items[index]? = some ⟨base, end_, none⟩

def LeastFree (areas : List VmArea) (size base : Nat) : Prop :=
  IsLeast {base | 0x1000 ≤ base ∧ Free areas base (base + size)} base

def CallSpec (map : VmMap) : AreaCall → Prop
  | .alloc size => ∃ base, LeastFree map.vmAreas.items size base ∧
      match vmMapAlloc map size with
      | some (next, index) => Adds map next index base (base + size)
      | none => (∀ area ∈ map.vmAreas.items, area.end_ ≤ base) ∧ 0xffffffff80000000 ≤ base + size
  | .allocat base size =>
      match vmMapAllocat map base size with
      | some (next, index) =>
          Free map.vmAreas.items base (base + size) ∧ Adds map next index base (base + size)
      | none => ¬ Free map.vmAreas.items base (base + size)

/-! ## Intervals -/

variable {area : VmArea}

/-- Every area is an interval that ends where the next one begins, or before. -/
structure Ordered (areas : List VmArea) : Prop where
  proper : ∀ area ∈ areas, area.base < area.end_
  apart : areas.Pairwise fun area later => area.end_ ≤ later.base

theorem meets_iff (proper : base < end_) (properArea : area.base < area.end_) :
    Meets base end_ area ↔ base < area.end_ ∧ area.base < end_ := by
  constructor
  · rintro ⟨_, _, _, _, _⟩
    omega
  · rintro ⟨_, _⟩
    exact ⟨max base area.base, by omega, by omega, by omega, by omega⟩

theorem intersects_iff (proper : base < end_) (properArea : area.base < area.end_) :
    intersects base end_ area = true ↔ Meets base end_ area := by
  rw [meets_iff proper properArea]
  simp only [intersects, Bool.or_eq_true, Bool.and_eq_true, decide_eq_true_eq]
  omega

theorem Ordered.sortedDisjoint {areas : List VmArea} (ordered : Ordered areas) :
    SortedDisjoint areas := by
  refine List.Pairwise.imp_of_mem ?_ ordered.apart
  intro area _ inAreas _ _
  have proper := ordered.proper area inAreas
  refine ⟨by omega, ?_⟩
  rintro ⟨_, _, _, _, _⟩
  omega

theorem Ordered.insert (ordered : Ordered (before ++ after)) (proper : base < end_)
    (below : ∀ area ∈ before, area.end_ ≤ base) (above : ∀ area ∈ after, end_ ≤ area.base) :
    Ordered (before ++ ⟨base, end_, none⟩ :: after) := by
  obtain ⟨properAreas, apart⟩ := ordered
  obtain ⟨apartBefore, apartAfter, across⟩ := pairwise_append.mp apart
  constructor
  · obtain ⟨properBefore, properAfter⟩ := forall_mem_append.mp properAreas
    exact forall_mem_append.mpr ⟨properBefore, forall_mem_cons.mpr ⟨proper, properAfter⟩⟩
  · refine pairwise_append.mpr ⟨apartBefore, pairwise_cons.mpr ⟨above, apartAfter⟩, ?_⟩
    exact fun area earlier => forall_mem_cons.mpr ⟨below area earlier, across area earlier⟩

theorem Ordered.above {area : VmArea} (ordered : Ordered (before ++ area :: after))
    (gap : end_ ≤ area.base) : ∀ later ∈ area :: after, end_ ≤ later.base := by
  have properArea := ordered.proper area (mem_append_right _ mem_cons_self)
  refine forall_mem_cons.mpr ⟨gap, fun later further => ?_⟩
  have apart := (pairwise_cons.mp (pairwise_append.mp ordered.apart).2.1).1 later further
  omega

theorem free_gap (below : ∀ area ∈ before, area.end_ ≤ base)
    (above : ∀ area ∈ after, end_ ≤ area.base) : Free (before ++ after) base end_ := by
  rintro area mem ⟨_, _, _, _, _⟩
  rcases mem_append.mp mem with earlier | later
  · have := below area earlier
    omega
  · have := above area later
    omega

/-! ## Insertion -/

/-- A call that returned an area added it in its place. -/
def Placed (map : VmMap) (base end_ : Nat) (result : VmMap × Nat) : Prop :=
  Ordered result.1.vmAreas.items ∧ Adds map result.1 result.2 base end_

section Place

theorem insertArea_placed (items : map.vmAreas.items = before ++ after)
    (ordered : Ordered (before ++ after)) (proper : base < end_)
    (below : ∀ area ∈ before, area.end_ ≤ base) (above : ∀ area ∈ after, end_ ≤ area.base) :
    Placed map base end_ (insertArea map before.length base end_) := by
  have inserted : (insertArea map before.length base end_).1.vmAreas.items =
      before ++ ⟨base, end_, none⟩ :: after := by
    simp only [insertArea, KList.insertBefore, items]
    exact KList.insertIdx_append _ _ _
  refine ⟨?_, ?_, ?_⟩
  · rw [inserted]
    exact ordered.insert proper below above
  · rw [inserted, items]
    exact perm_middle
  · rw [inserted]
    simp [insertArea]

theorem pushArea_placed (ordered : Ordered map.vmAreas.items) (proper : base < end_)
    (below : ∀ area ∈ map.vmAreas.items, area.end_ ≤ base) :
    Placed map base end_ (pushArea map base end_) := by
  have above : ∀ area ∈ ([] : List VmArea), end_ ≤ area.base := fun _ mem => absurd mem not_mem_nil
  rw [← append_nil map.vmAreas.items] at ordered
  refine ⟨ordered.insert proper below above, perm_append_singleton _ _, ?_⟩
  simp [pushArea]

end Place

/-! ## `vm_map_alloc` -/

variable {size : Nat}

/-- What `vm_map_alloc` returns when the least free base is `base`. -/
def AllocOutcome (map : VmMap) (size base : Nat) : Option (VmMap × Nat) → Prop
  | some result => Placed map base (base + size) result
  | none => (∀ area ∈ map.vmAreas.items, area.end_ ≤ base) ∧ 0xffffffff80000000 ≤ base + size

theorem mem_allocBases (size : Nat) (areas : List VmArea) (base : Nat) :
    base ∈ allocBases size areas base := by
  induction areas with
  | nil => exact mem_singleton.mpr rfl
  | cons _ areas ih =>
    unfold allocBases
    split
    · exact mem_singleton.mpr rfl
    · split
      · exact mem_cons_self
      · exact ih

/-- The scan, after it has passed the areas of `before`. -/
theorem vmMapAllocScan_spec (pos : 0 < size) (items : map.vmAreas.items = before ++ after)
    (ordered : Ordered (before ++ after)) (atLeast : 0x1000 ≤ base)
    (below : ∀ area ∈ before, area.end_ ≤ base)
    (taken : ∀ lower, 0x1000 ≤ lower → lower < base → ¬ Free map.vmAreas.items lower (lower + size))
    (sums : ∀ tried ∈ allocBases size after base, tried + size < 2 ^ 64) :
    ∃ found, LeastFree map.vmAreas.items size found ∧
      AllocOutcome map size found (vmMapAllocScan map size after before.length base) := by
  induction after generalizing before base with
  | nil =>
    have sum : addWord base size = base + size := addWord_of_lt (sums base (mem_singleton.mpr rfl))
    rw [append_nil] at items ordered
    refine ⟨base, ⟨⟨atLeast, ?_⟩, ?_⟩, ?_⟩
    · rintro area mem ⟨_, _, _, _, _⟩
      rw [items] at mem
      have := below area mem
      omega
    · intro lower ⟨lowerAtLeast, free⟩
      exact Nat.not_lt.mp fun less => taken lower lowerAtLeast less free
    · rw [← items] at ordered below
      simp only [vmMapAllocScan, sum]
      split
      · exact pushArea_placed ordered (Nat.lt_add_of_pos_right pos) below
      · rename_i high
        exact ⟨below, Nat.not_lt.mp high⟩
  | cons area after ih =>
    have inList : area ∈ before ++ area :: after := mem_append_right _ mem_cons_self
    have properArea : area.base < area.end_ := ordered.proper area inList
    have passed : before ++ area :: after = (before ++ [area]) ++ after := by simp
    have index : before.length + 1 = (before ++ [area]).length := by simp
    have sum : addWord base size = base + size :=
      addWord_of_lt (sums base (mem_allocBases size _ base))
    simp only [vmMapAllocScan, allocBases, sum] at sums ⊢
    by_cases gap : base + size ≤ area.base
    · -- The base in hand is free, and the areas from here on are above it.
      rw [if_pos gap]
      have above := ordered.above gap
      refine ⟨base, ⟨⟨atLeast, ?_⟩, ?_⟩, ?_⟩
      · rw [items]
        exact free_gap below above
      · intro lower ⟨lowerAtLeast, free⟩
        exact Nat.not_lt.mp fun less => taken lower lowerAtLeast less free
      · exact insertArea_placed items ordered (Nat.lt_add_of_pos_right pos) below above
    · rw [if_neg gap] at sums ⊢
      have proper : base < base + size := Nat.lt_add_of_pos_right pos
      have test := (intersects_iff proper properArea).trans (meets_iff proper properArea)
      by_cases blocked : intersects base (base + size) area = true
      · -- Every base up to the end of this area meets it.
        rw [if_pos blocked] at sums ⊢
        have inWay := test.mp blocked
        rw [index]
        apply ih (items.trans passed) (passed ▸ ordered) (by omega)
        · refine forall_mem_append.mpr ⟨?_, forall_mem_singleton.mpr (Nat.le_refl _)⟩
          exact fun earlier mem => Nat.le_trans (below earlier mem) (by omega)
        · intro lower lowerAtLeast less free
          by_cases lowest : lower < base
          · exact taken lower lowerAtLeast lowest free
          · apply free area (items ▸ inList)
            rw [meets_iff (Nat.lt_add_of_pos_right pos) properArea]
            omega
        · exact fun tried mem => sums tried (mem_cons_of_mem _ mem)
      · rw [if_neg blocked] at sums ⊢
        have apart := mt test.mpr blocked
        rw [index]
        apply ih (items.trans passed) (passed ▸ ordered) atLeast _ taken sums
        exact forall_mem_append.mpr ⟨below, forall_mem_singleton.mpr (by omega)⟩

theorem vmMapAlloc_spec (ordered : Ordered map.vmAreas.items) (inRange : InRange map (.alloc size)) :
    ∃ base, LeastFree map.vmAreas.items size base ∧
      AllocOutcome map size base (vmMapAlloc map size) := by
  apply vmMapAllocScan_spec inRange.1 (nil_append _).symm ordered (Nat.le_refl _) _ _ inRange.2
  · exact fun _ mem => absurd mem not_mem_nil
  · exact fun _ atLeast less => absurd atLeast (Nat.not_le.mpr less)

/-! ## `vm_map_allocat` -/

/-- What `vm_map_allocat` returns. -/
def AllocatOutcome (map : VmMap) (base end_ : Nat) : Option (VmMap × Nat) → Prop
  | some result => Free map.vmAreas.items base end_ ∧ Placed map base end_ result
  | none => ¬ Free map.vmAreas.items base end_

theorem vmMapAllocatScan_spec (proper : base < end_) (items : map.vmAreas.items = before ++ after)
    (ordered : Ordered (before ++ after)) (below : ∀ area ∈ before, area.end_ ≤ base) :
    AllocatOutcome map base end_ (vmMapAllocatScan map base end_ after before.length) := by
  induction after generalizing before with
  | nil =>
    have free : Free (before ++ []) base end_ := free_gap below fun _ mem => absurd mem not_mem_nil
    rw [← items] at ordered free
    rw [append_nil] at items
    rw [← items] at below
    -- The areas are all below, the last one too.
    have last : map.vmAreas.size = 0 ∨
        map.vmAreas.items.getLast?.all (fun last => last.end_ ≤ base) = true := by
      refine Or.inr ?_
      simp only [Option.all_eq_true, decide_eq_true_eq]
      exact fun area isLast => below area (mem_of_getLast? isLast)
    unfold vmMapAllocatScan
    rw [if_pos last]
    exact ⟨free, pushArea_placed ordered proper below⟩
  | cons area after ih =>
    have inList : area ∈ before ++ area :: after := mem_append_right _ mem_cons_self
    have properArea : area.base < area.end_ := ordered.proper area inList
    have passed : before ++ area :: after = (before ++ [area]) ++ after := by simp
    have index : before.length + 1 = (before ++ [area]).length := by simp
    have test := intersects_iff proper properArea
    unfold vmMapAllocatScan
    by_cases blocked : intersects base end_ area = true
    · rw [if_pos blocked]
      exact fun free => free area (items ▸ inList) (test.mp blocked)
    · rw [if_neg blocked]
      have apart := mt (test.trans (meets_iff proper properArea)).mpr blocked
      by_cases lower : area.end_ ≤ base
      · rw [if_pos lower, index]
        apply ih (items.trans passed) (passed ▸ ordered)
        exact forall_mem_append.mpr ⟨below, forall_mem_singleton.mpr lower⟩
      · rw [if_neg lower, if_pos (by omega)]
        have above := ordered.above (show end_ ≤ area.base by omega)
        refine ⟨?_, insertArea_placed items ordered proper below above⟩
        rw [items]
        exact free_gap below above

theorem vmMapAllocat_spec (ordered : Ordered map.vmAreas.items)
    (inRange : InRange map (.allocat base size)) :
    AllocatOutcome map base (base + size) (vmMapAllocat map base size) := by
  have proper : base < base + size := Nat.lt_add_of_pos_right inRange.1
  unfold vmMapAllocat
  rw [addWord_of_lt inRange.2]
  exact vmMapAllocatScan_spec proper (nil_append _).symm ordered fun _ mem => absurd mem not_mem_nil

/-! ## Runs -/

theorem callSpec_of_ordered {call : AreaCall} (ordered : Ordered map.vmAreas.items)
    (inRange : InRange map call) : CallSpec map call := by
  cases call with
  | alloc size =>
    obtain ⟨base, least, outcome⟩ := vmMapAlloc_spec ordered inRange
    refine ⟨base, least, ?_⟩
    cases result : vmMapAlloc map size with
    | none =>
      rw [result] at outcome
      exact outcome
    | some placed =>
      rw [result] at outcome
      exact outcome.2
  | allocat base size =>
    have outcome := vmMapAllocat_spec ordered inRange
    simp only [CallSpec]
    cases result : vmMapAllocat map base size with
    | none =>
      rw [result] at outcome
      exact outcome
    | some placed =>
      rw [result] at outcome
      exact ⟨outcome.1, outcome.2.2⟩

theorem areaStep_ordered (map : VmMap) (call : AreaCall) (ordered : Ordered map.vmAreas.items)
    (inRange : InRange map call) :
    ∃ next, areaStep map call = some next ∧ Ordered next.vmAreas.items := by
  cases call with
  | alloc size =>
    obtain ⟨base, _, outcome⟩ := vmMapAlloc_spec ordered inRange
    refine ⟨_, rfl, ?_⟩
    cases result : vmMapAlloc map size with
    | none => exact ordered
    | some placed =>
      rw [result] at outcome
      exact outcome.1
  | allocat base size =>
    have outcome := vmMapAllocat_spec ordered inRange
    refine ⟨_, rfl, ?_⟩
    cases result : vmMapAllocat map base size with
    | none => exact ordered
    | some placed =>
      rw [result] at outcome
      exact outcome.2.1

/-- After every sequence of calls on an empty map the areas are sorted and disjoint, and
the next call adds what it should, or returns `NULL` for the right reason. -/
theorem vm_areas_sorted_disjoint (map : VmMap) (empty : map.vmAreas = KList.create)
    (calls : List AreaCall) (inRange : Permitted areaStep InRange map calls) :
    ∃ final, drive areaStep map calls = some final ∧ SortedDisjoint final.vmAreas.items ∧
      ∀ call, InRange final call → CallSpec final call := by
  have start : Ordered map.vmAreas.items := by
    rw [empty]
    exact ⟨fun _ member => absurd member not_mem_nil, List.Pairwise.nil⟩
  obtain ⟨final, driven, ordered⟩ := drive_total areaStep_ordered calls map start inRange
  exact ⟨final, driven, ordered.sortedDisjoint, fun _ ranges => callSpec_of_ordered ordered ranges⟩

/-- An address space without areas or tables. -/
def emptyMap : VmMap :=
  { pml4Phys := 0, pdptPhys := 0, physPds := fun _ => 0, pds := fun _ _ => 0
    pts := fun _ _ => none, vmAreas := .create }

/-- Two areas are placed, one of them at a fixed base, and the next fits between them. -/
theorem vm_areas_sorted_disjoint_gap :
    ∃ final, drive areaStep emptyMap
        [.alloc 0x1000, .allocat 0x4000 0x1000, .alloc 0x2000] = some final ∧
      final.vmAreas.items.map (fun area => (area.base, area.end_)) =
        [(0x1000, 0x2000), (0x2000, 0x4000), (0x4000, 0x5000)] ∧
      SortedDisjoint final.vmAreas.items := by
  have inRange : Permitted areaStep InRange emptyMap
      [.alloc 0x1000, .allocat 0x4000 0x1000, .alloc 0x2000] := by
    refine ⟨⟨by decide, by decide +kernel⟩, fun next stepped => ?_⟩
    cases stepped
    refine ⟨⟨by decide, by decide⟩, fun next stepped => ?_⟩
    cases stepped
    exact ⟨⟨by decide, by decide +kernel⟩, fun _ _ => trivial⟩
  obtain ⟨final, driven, sorted, _⟩ := vm_areas_sorted_disjoint emptyMap rfl _ inRange
  have areas : (drive areaStep emptyMap [.alloc 0x1000, .allocat 0x4000 0x1000, .alloc 0x2000]).map
      (fun final => final.vmAreas.items.map fun area => (area.base, area.end_)) =
      some [(0x1000, 0x2000), (0x2000, 0x4000), (0x4000, 0x5000)] := by
    decide +kernel
  rw [driven] at areas
  exact ⟨final, driven, Option.some.inj areas, sorted⟩

end Micro.Mm
