import Micro.Mm.Areas
import Micro.Mm.Mmap
import Micro.Proc.Task

/-!
# Areas in the user half

The page tables of a task and the page fault handler serve addresses below 2^39, and the first
page is never mapped.  `mmap` and `brk` take addresses and lengths as they come, so areas stay
in that range only as long as the requests do.
-/

namespace Micro.Mm

open Kern Lib Fs Proc List

variable {size base index : Nat} {map : VmMap} {σ : Type}

/-- Every area lies in the range that can be served. -/
def InUserHalf (map : VmMap) : Prop :=
  ∀ area ∈ map.vmAreas.items, 0x1000 ≤ area.base ∧ area.base < area.end_ ∧ area.end_ ≤ 2 ^ 39

/-- There is room for an area in the user half. -/
def Room (areas : List VmArea) (size : Nat) : Prop :=
  ∃ base, 0x1000 ≤ base ∧ base + size ≤ 2 ^ 39 ∧ Free areas base (base + size)

/-- When the place asked for is free, it is in the user half; when it is not, the request
insists on it, or there is room elsewhere. -/
structure AreaRequest.Fits (request : AreaRequest) (areas : List VmArea) : Prop where
  positive : 0 < request.size
  hint : request.base ≠ 0 → Free areas request.base (request.base + request.size) →
    0x1000 ≤ request.base ∧ request.base + request.size ≤ 2 ^ 39
  fallback : request.base = 0 ∨ ¬ Free areas request.base (request.base + request.size) →
    request.fixed = true ∧ request.base ≠ 0 ∧ request.base + request.size < 2 ^ 64 ∨
      Room areas request.size

/-- The areas are sorted, disjoint and in the user half. -/
structure Orderly (map : VmMap) : Prop where
  ordered : Ordered map.vmAreas.items
  inside : InUserHalf map

/-- `vm_map_alloc` tries the first page and the ends of areas. -/
theorem allocBases_le {bound : Nat} {areas : List VmArea} {start : Nat} (low : start ≤ bound)
    (ends : ∀ area ∈ areas, area.end_ ≤ bound) (tried : base ∈ allocBases size areas start) :
    base ≤ bound := by
  induction areas generalizing start with
  | nil =>
    rw [mem_singleton.mp tried]
    exact low
  | cons area areas ih =>
    simp only [forall_mem_cons] at ends
    unfold allocBases at tried
    split at tried
    · rw [mem_singleton.mp tried]
      exact low
    · split at tried
      · rcases mem_cons.mp tried with rfl | later
        · exact low
        · exact ih ends.1 ends.2 later
      · exact ih low ends.2 tried

section Placing

variable {placed : VmMap} {request : AreaRequest}

/-- No sum that `vm_map_allocat` forms for such a request exceeds a word. -/
theorem AreaRequest.Fits.noCarry (fits : request.Fits map.vmAreas.items) (inside : InUserHalf map)
    (hinted : request.base ≠ 0) : request.base + request.size < 2 ^ 64 := by
  by_cases free : Free map.vmAreas.items request.base (request.base + request.size)
  · have bound := (fits.hint hinted free).2
    omega
  · rcases fits.fallback (.inr free) with fixed | ⟨_, -, _, -⟩
    · exact fixed.2.2
    · simp only [Free, not_forall, not_not] at free
      obtain ⟨area, mem, _, _, _, _, _⟩ := free
      have bound := (inside area mem).2.2
      omega

variable (orderly : Orderly map)
include orderly

theorem Orderly.add {end_ : Nat} (proper : base < end_) (low : 0x1000 ≤ base) (high : end_ ≤ 2 ^ 39)
    (added : Placed map base end_ (placed, index)) :
    Orderly placed where
  ordered := added.1
  inside := by
    intro area mem
    rcases mem_cons.mp (added.2.1.mem_iff.mp mem) with rfl | old
    · exact ⟨low, proper, high⟩
    · exact orderly.inside area old

theorem Orderly.vmMapAlloc (pos : 0 < size) (room : Room map.vmAreas.items size) :
    ∃ result, Mm.vmMapAlloc map size = some result ∧ Orderly result.1 := by
  obtain ⟨_, low, _, isFree⟩ := room
  have inRange : InRange map (.alloc size) := by
    refine ⟨pos, fun base tried => ?_⟩
    have below : base ≤ 2 ^ 39 := allocBases_le (by decide)
      (fun area mem => (orderly.inside area mem).2.2) tried
    omega
  obtain ⟨base, least, outcome⟩ := vmMapAlloc_spec orderly.ordered inRange
  have lower := least.2 ⟨low, isFree⟩
  cases found : Mm.vmMapAlloc map size with
  | none =>
    rw [found] at outcome
    have tooHigh := outcome.2
    omega
  | some result =>
    rw [found] at outcome
    exact ⟨result, rfl, orderly.add (by omega) least.1.1 (by omega) outcome⟩

/-- A request that fits gets an area of the user half, or none. -/
theorem Orderly.allocVmarea (fits : request.Fits map.vmAreas.items)
    (found : Mm.allocVmarea map request.base request.size request.fixed = some (placed, index)) :
    Orderly placed := by
  have elsewhere : Room map.vmAreas.items request.size →
      Mm.vmMapAlloc map request.size = some (placed, index) → Orderly placed := by
    intro room alloc
    obtain ⟨result, isResult, orderly'⟩ := orderly.vmMapAlloc fits.positive room
    rw [alloc] at isResult
    cases isResult
    exact orderly'
  unfold Mm.allocVmarea at found
  split at found
  · rename_i hinted
    have noCarry := fits.noCarry orderly.inside hinted
    have outcome := vmMapAllocat_spec orderly.ordered ⟨fits.positive, noCarry⟩
    cases placedAt : vmMapAllocat map request.base request.size with
    | some result =>
      simp only [placedAt] at found outcome
      cases found
      obtain ⟨low, high⟩ := fits.hint hinted outcome.1
      exact orderly.add (Nat.lt_add_of_pos_right fits.positive) low high outcome.2
    | none =>
      simp only [placedAt] at found outcome
      split at found
      · cases found
      · rename_i notFixed
        apply elsewhere _ found
        exact (fits.fallback (.inr outcome)).resolve_left fun fixed => notFixed fixed.1
  · rename_i noHint
    have noHint := not_not.mp noHint
    apply elsewhere _ found
    exact (fits.fallback (.inl noHint)).resolve_left fun fixed => fixed.2.1 noHint

end Placing

/-! ## Calls -/

variable {kernel : Kernel σ} {self : ThreadId}

theorem orderly_iff (map : VmMap) :
    Orderly map ↔
      (map.vmAreas.items.map VmArea.extent).Pairwise (fun extent later => extent.2 ≤ later.1) ∧
        ∀ extent ∈ map.vmAreas.items.map VmArea.extent,
          0x1000 ≤ extent.1 ∧ extent.1 < extent.2 ∧ extent.2 ≤ 2 ^ 39 := by
  rw [pairwise_map, forall_mem_map]
  constructor
  · exact fun orderly => ⟨orderly.ordered.apart, orderly.inside⟩
  · rintro ⟨apart, inside⟩
    exact ⟨⟨fun area mem => (inside area mem).2.1, apart⟩, inside⟩

theorem Orderly.setObj {after : VmMap} (orderly : Orderly map) {obj : VmObject}
    (same : after.vmAreas = (Mm.setObj map index obj).vmAreas) : Orderly after := by
  rw [orderly_iff, same, extents_setObj, ← orderly_iff]
  exact orderly

/-- One call of a thread; the run ends when the kernel faults. -/
def mapStep (machine : Machine σ) (phys : FnPtr → Nat) (kernel : Kernel σ)
    (label : ThreadId × MapCall) : Option (Kernel σ) :=
  (mapCall machine phys kernel label.1 label.2).returned.map Prod.fst

/-- The area that a call asks for, if it asks for one, fits in the user half. -/
def RequestFits (kernel : Kernel σ) (label : ThreadId × MapCall) : Prop :=
  ∀ request, areaRequest kernel label.1 label.2 = some request →
    request.Fits (current kernel label.1).vmMap.vmAreas.items

/-- A call that returns and whose request fits. -/
def FittingStep (machine : Machine σ) (phys : FnPtr → Nat) :
    Kernel σ → ThreadId × MapCall → Kernel σ → Prop :=
  Restricted (fun kernel label next => mapStep machine phys kernel label = some next) RequestFits

def OrderlyTasks (kernel : Kernel σ) : Prop := ∀ task, Orderly (kernel.task task).vmMap

theorem withMap_orderly {dev : σ} (orderly : OrderlyTasks kernel) (orderlyMap : Orderly map) :
    OrderlyTasks (withMap kernel self dev map) := by
  intro task
  unfold withMap
  by_cases same : task = currentId kernel self
  · subst same
    rw [Kernel.setTask_task_self]
    exact orderlyMap
  · rw [Kernel.setTask_task_of_ne _ _ same]
    exact orderly task

theorem MmapEnd.orderly {kernel' : Kernel σ} {request : Option AreaRequest} {value : Int}
    (ended : MmapEnd kernel self request (.ret kernel' value)) (orderly : OrderlyTasks kernel)
    (fits : ∀ r, request = some r → r.Fits (current kernel self).vmMap.vmAreas.items) :
    OrderlyTasks kernel' := by
  cases ended with
  | rejected _ => exact orderly
  | anon found _ =>
    apply withMap_orderly orderly
    exact ((orderly _).allocVmarea (fits _ rfl) found).setObj rfl
  | device found _ areas =>
    apply withMap_orderly orderly
    exact ((orderly _).allocVmarea (fits _ rfl) found).setObj areas

theorem mapStep_orderly {machine : Machine σ} {phys : FnPtr → Nat} (kernel : Kernel σ)
    (label : ThreadId × MapCall) (kernel' : Kernel σ) (orderly : OrderlyTasks kernel)
    (stepped : FittingStep machine phys kernel label kernel') : OrderlyTasks kernel' := by
  obtain ⟨stepped, fits⟩ := stepped
  obtain ⟨self, call⟩ := label
  unfold mapStep at stepped
  obtain ⟨outcome, ended, called⟩ := @mapCall_end _ kernel self machine phys call
  rw [called] at stepped
  cases outcome with
  | fault middle => cases stepped
  | ret middle _ =>
    cases stepped
    intro task
    rw [setBrk_vmMap]
    exact ended.orderly orderly fits task

/-- In every run of calls whose requests all fit, every area of every task is in the user
half. -/
theorem areas_in_user_half (machine : Machine σ) (phys : FnPtr → Nat) (kernel : Kernel σ)
    (orderly : OrderlyTasks kernel) (calls : List (ThreadId × MapCall))
    (final : Kernel σ) (run : Run (FittingStep machine phys) kernel calls final) :
    ∀ task, InUserHalf (final.task task).vmMap := by
  have kept := run.invariant mapStep_orderly orderly
  exact fun task => (kept task).inside

/-- An anonymous page is mapped at 4 MiB. -/
theorem areas_in_user_half_page :
    ∃ final, Run (FittingStep (oneFile 0) fun _ => 0xb8000) oneTask
        [(0, .mmap 0x400000 0x1000 0x22 (-1))] final ∧
      ∀ task, InUserHalf (final.task task).vmMap := by
  have noAreas : ∀ task, (oneTask.task task).vmMap.vmAreas.items = [] := fun _ => rfl
  have orderly : OrderlyTasks oneTask := by
    intro task
    rw [orderly_iff, noAreas]
    simp
  have fits : RequestFits oneTask (0, .mmap 0x400000 0x1000 0x22 (-1)) := by
    intro _ isRequest
    have same := isRequest
    cases same
    rw [current, noAreas]
    exact ⟨by decide, fun _ _ => by decide, fun taken => absurd taken (by simp [Free])⟩
  have run : Run (FittingStep (oneFile 0) fun _ => 0xb8000) oneTask
      [(0, .mmap 0x400000 0x1000 0x22 (-1))] _ := .cons ⟨rfl, fits⟩ (.nil _)
  exact ⟨_, run, areas_in_user_half _ _ oneTask orderly _ _ run⟩

/-- A page at 2^40 is mapped as asked for. -/
theorem areas_outside_user_half :
    ∃ final, drive (mapStep (oneFile 0) fun _ => 0xb8000) oneTask
        [(0, .mmap 0x10000000000 0x1000 0x22 (-1))] = some final ∧
      ¬ InUserHalf (final.task 0).vmMap := by
  refine ⟨_, rfl, fun inside => ?_⟩
  have bounds := inside ⟨0x10000000000, 0x10000001000, some (.anon 1 fun _ => 0)⟩ mem_cons_self
  exact absurd bounds.2.2 (by decide)

end Micro.Mm
