import Mathlib.Data.List.Perm.Basic
import Micro.Lib.Run
import Micro.Lib.Search
import Micro.Lib.Word
import Micro.Mm.Mmu

/-!
# The kernel's virtual pages

`mmu_kalloc` hands out runs of pages of the last gigabyte of the address space, from
512 page tables of 512 entries.  A page is taken when its entry is present.  It first
looks for a run in tables whose directory entry is present, and then for directory
entries that are not.

Pages are numbered here from the start of the window: page `512 * i + j` is entry `j` of
table `i`.
-/

namespace Micro.Mm

open Lib Function List Option

variable {i virt page : Nat} {range other : Nat × Nat}

abbrev heapBase : Nat := 0xffffffffc0000000

structure Kheap where
  dir : Nat → Nat
  tbls : Nat → Nat → Nat

def mmuInit : Kheap := { dir := fun _ => 0, tbls := fun _ _ => 0 }

def Kheap.setEntry (heap : Kheap) (i j entry : Nat) : Kheap :=
  { heap with tbls := assign₂ heap.tbls i j entry }

/-- The local variables of `mmu_kalloc`. -/
structure Kcursor where
  counter : Nat
  pdidx : Nat
  ptidx : Nat

/-- The body of the loop over a table that is in use. -/
def tableRound (heap : Kheap) (n i : Nat) (cursor : Kcursor) (j : Nat) : Kcursor × Bool :=
  if pagePr (heap.tbls i j) then ({ counter := 0, pdidx := i, ptidx := j + 1 }, false)
  else ({ cursor with counter := cursor.counter + 1 }, n ≤ cursor.counter + 1)

/-- The body of the first loop over the directory. -/
def dirRound (heap : Kheap) (n : Nat) (cursor : Kcursor) (i : Nat) : Kcursor × Bool :=
  if !pagePr (heap.dir i) || (heap.dir i).testBit 7 then
    ({ counter := 0, pdidx := i + 1, ptidx := 0 }, false)
  else search (tableRound heap n i) 512 0 cursor

/-- The body of the second loop over the directory. -/
def newDirRound (heap : Kheap) (n : Nat) (cursor : Kcursor) (i : Nat) : Kcursor × Bool :=
  if pagePr (heap.dir i) then ({ counter := 0, pdidx := i + 1, ptidx := 0 }, false)
  else ({ cursor with counter := cursor.counter + 512 }, n ≤ cursor.counter + 512)

/-- `while (counter--)`: mark pages of tables that are in use -/
def markPages : (count pdidx ptidx : Nat) → Kheap → Kheap
  | 0, _, _, heap => heap
  | count + 1, pdidx, ptidx, heap =>
      if 512 ≤ ptidx then markPages count (pdidx + 1) 1 (heap.setEntry (pdidx + 1) 0 1)
      else markPages count pdidx (ptidx + 1) (heap.setEntry pdidx ptidx 1)

section Kalloc

-- The physical address of each of `kheap_tbls`.
variable (tables : Nat → Nat)

/-- `kheap_dir[i] = ((uintptr_t)&kheap_tbls[i] - KBASE) | PAGE_PR | PAGE_RW` -/
def Kheap.useTable (heap : Kheap) (i : Nat) : Kheap :=
  { heap with dir := Function.update heap.dir i (tables i ||| 3) }

/-- `while (n--)`: mark pages, taking tables into use -/
def markNewPages : (count pdidx ptidx : Nat) → Kheap → Kheap
  | 0, _, _, heap => heap
  | count + 1, pdidx, ptidx, heap =>
      if 512 ≤ ptidx then
        markNewPages count (pdidx + 1) 1 ((heap.useTable tables (pdidx + 1)).setEntry (pdidx + 1) 0 1)
      else markNewPages count pdidx (ptidx + 1) (heap.setEntry pdidx ptidx 1)

/-- `HEAPBASE + (pdidx * PAGE2M) + (ptidx * PAGE4K)` -/
def Kcursor.address (cursor : Kcursor) : Nat :=
  (heapBase + cursor.pdidx * 0x200000 + cursor.ptidx * 0x1000) % 2 ^ 64

def mmuKalloc (heap : Kheap) (n : Nat) : Kheap × Nat :=
  let used := search (dirRound heap n) 512 0 ⟨0, 0, 0⟩
  if used.2 then
    (markPages used.1.counter used.1.pdidx used.1.ptidx heap, used.1.address)
  else
    let fresh := search (newDirRound heap n) 512 0 ⟨0, 0, 0⟩
    if fresh.2 then
      (markNewPages tables n fresh.1.pdidx fresh.1.ptidx (heap.useTable tables fresh.1.pdidx),
        fresh.1.address)
    else (heap, 0)

end Kalloc

def mmuKfree : (n ptr : Nat) → Kheap → Kheap
  | 0, _, heap => heap
  | n + 1, ptr, heap => mmuKfree n (addWord ptr 0x1000) (heap.setEntry (pdIdx ptr) (ptIdx ptr) 0)

def mmuKmap (heap : Kheap) (virt phys flags : Nat) : Kheap :=
  heap.setEntry (pdIdx virt) (ptIdx virt) (pageFrame phys ||| flags)

/-! ## Pages -/

variable {heap : Kheap}

def Kheap.entry (heap : Kheap) (page : Nat) : Nat := heap.tbls (page / 512) (page % 512)

/-- The page is taken. -/
def Kheap.present (heap : Kheap) (page : Nat) : Bool := pagePr (heap.entry page)

theorem setEntry_entry {j : Nat} (inTable : j < 512) (value page : Nat) :
    (heap.setEntry i j value).entry page =
      if page = 512 * i + j then value else heap.entry page := by
  unfold Kheap.entry Kheap.setEntry assign₂
  dsimp only
  by_cases same : page = 512 * i + j
  · subst same
    rw [show (512 * i + j) / 512 = i by omega, show (512 * i + j) % 512 = j by omega]
    simp
  · rw [if_neg same]
    by_cases table : page / 512 = i
    · have other : page % 512 ≠ j := by omega
      rw [table, update_self, update_of_ne other]
    · rw [update_of_ne table]

/-- The pages of a range, and no others, have been assigned an entry. -/
def Assigned (value start count : Nat) (before after : Kheap) : Prop :=
  ∀ page, after.entry page =
    if start ≤ page ∧ page < start + count then value else before.entry page

theorem Assigned.none (value start : Nat) (heap : Kheap) : Assigned value start 0 heap heap := by
  intro _
  rw [if_neg (by omega)]

theorem Assigned.step {value j count : Nat} {before after : Kheap} (inTable : j < 512)
    (rest : Assigned value (512 * i + j + 1) count (before.setEntry i j value) after) :
    Assigned value (512 * i + j) (count + 1) before after := by
  intro page
  rw [rest page, setEntry_entry inTable]
  by_cases first : page = 512 * i + j
  · rw [if_neg (by omega), if_pos first, if_pos (by omega)]
  · rw [if_neg first]
    by_cases inRest : 512 * i + j + 1 ≤ page ∧ page < 512 * i + j + 1 + count
    · rw [if_pos inRest, if_pos (by omega)]
    · rw [if_neg inRest, if_neg (by omega)]

theorem markPages_spec {count pdidx ptidx : Nat} {heap : Kheap} (inTable : ptidx ≤ 512) :
    (markPages count pdidx ptidx heap).dir = heap.dir ∧
      Assigned 1 (512 * pdidx + ptidx) count heap (markPages count pdidx ptidx heap) := by
  induction count generalizing pdidx ptidx heap with
  | zero => exact ⟨rfl, .none _ _ _⟩
  | succ count ih =>
    unfold markPages
    split_ifs with full
    · obtain ⟨sameDir, rest⟩ := @ih (pdidx + 1) 1 (heap.setEntry (pdidx + 1) 0 1) (by decide)
      rw [show 512 * pdidx + ptidx = 512 * (pdidx + 1) + 0 by omega]
      exact ⟨sameDir, .step (by decide) rest⟩
    · obtain ⟨sameDir, rest⟩ := @ih pdidx (ptidx + 1) (heap.setEntry pdidx ptidx 1) (by omega)
      exact ⟨sameDir, .step (by omega) rest⟩

theorem useTable_present (tables : Nat → Nat) (heap : Kheap) (i : Nat) :
    pagePr ((heap.useTable tables i).dir i) = true := by
  simp only [Kheap.useTable, pagePr]
  simp

theorem useTable_dir (tables : Nat → Nat) (heap : Kheap) (i table : Nat)
    (present : pagePr (heap.dir table) = true) :
    pagePr ((heap.useTable tables i).dir table) = true := by
  by_cases same : table = i
  · subst same
    exact useTable_present tables heap table
  · simp only [Kheap.useTable, update_of_ne same]
    exact present

/-- The second loop marks pages, and the tables it comes to are taken into use. -/
theorem markNewPages_spec {tables : Nat → Nat} {count pdidx ptidx : Nat} {heap : Kheap}
    (inTable : ptidx ≤ 512) (used : pagePr (heap.dir pdidx) = true) :
    Assigned 1 (512 * pdidx + ptidx) count heap (markNewPages tables count pdidx ptidx heap) ∧
      (∀ table, pagePr (heap.dir table) = true →
        pagePr ((markNewPages tables count pdidx ptidx heap).dir table) = true) ∧
      ∀ page, 512 * pdidx + ptidx ≤ page → page < 512 * pdidx + ptidx + count →
        pagePr ((markNewPages tables count pdidx ptidx heap).dir (page / 512)) = true := by
  induction count generalizing pdidx ptidx heap with
  | zero =>
    exact ⟨.none _ _ _, fun _ present => present, fun page low high => absurd high (by omega)⟩
  | succ count ih =>
    unfold markNewPages
    split_ifs with full
    · obtain ⟨rest, kept, present⟩ := @ih (pdidx + 1) 1
        ((heap.useTable tables (pdidx + 1)).setEntry (pdidx + 1) 0 1) (by decide)
        (useTable_present tables heap (pdidx + 1))
      have start : 512 * pdidx + ptidx = 512 * (pdidx + 1) + 0 := by omega
      have assigned : Assigned 1 (512 * (pdidx + 1) + 0) (count + 1)
          (heap.useTable tables (pdidx + 1)) _ := .step (by decide) rest
      rw [start]
      refine ⟨assigned, fun table was => kept table (useTable_dir tables heap _ table was), ?_⟩
      intro page low high
      by_cases first : page = 512 * (pdidx + 1)
      · rw [show page / 512 = pdidx + 1 by omega]
        exact kept (pdidx + 1) (useTable_present tables heap (pdidx + 1))
      · exact present page (by omega) (by omega)
    · obtain ⟨rest, kept, present⟩ := @ih pdidx (ptidx + 1)
        (heap.setEntry pdidx ptidx 1) (by omega) used
      refine ⟨.step (by omega) rest, kept, ?_⟩
      intro page low high
      by_cases first : page = 512 * pdidx + ptidx
      · rw [show page / 512 = pdidx by omega]
        exact kept pdidx used
      · exact present page (by omega) (by omega)

/-! ## The two searches -/

variable {n : Nat}

/-- The page is not taken, and its table is in use. -/
def Usable (heap : Kheap) (page : Nat) : Prop :=
  pagePr (heap.dir (page / 512)) = true ∧ heap.present page = false

/-- The first page of the run that is being counted. -/
def Kcursor.start (cursor : Kcursor) : Nat := 512 * cursor.pdidx + cursor.ptidx

/-- The run being counted ends at page `stop`. -/
structure Counting (heap : Kheap) (n stop : Nat) (cursor : Kcursor) : Prop where
  index : cursor.ptidx ≤ 512
  few : cursor.counter < n
  reached : cursor.start + cursor.counter = stop
  usable : ∀ page, cursor.start ≤ page → page < stop → Usable heap page

/-- A run of `n` usable pages has been found. -/
structure FoundRun (heap : Kheap) (n : Nat) (cursor : Kcursor) : Prop where
  index : cursor.ptidx ≤ 512
  enough : cursor.counter = n
  bound : cursor.start + n ≤ 262144
  usable : ∀ page, cursor.start ≤ page → page < cursor.start + n → Usable heap page

theorem tableRound_spec (pos : 1 ≤ n) (inDir : i < 512) (used : pagePr (heap.dir i) = true)
    (j : Nat) (cursor : Kcursor) (inTable : j < 512)
    (counting : Counting heap n (512 * i + j) cursor) :
    EndsWith (FoundRun heap n) (Counting heap n (512 * i + (j + 1))) (tableRound heap n i cursor j) := by
  have table : (512 * i + j) / 512 = i := by omega
  have entry : (512 * i + j) % 512 = j := by omega
  unfold tableRound
  split_ifs with taken
  · refine ⟨?_, pos, rfl, fun page low high => ?_⟩
    · exact inTable
    · simp only [Kcursor.start] at low
      omega
  · have usable : ∀ page, cursor.start ≤ page → page < 512 * i + (j + 1) → Usable heap page := by
      intro page low high
      by_cases last : page = 512 * i + j
      · subst last
        refine ⟨by rw [table]; exact used, ?_⟩
        rw [Kheap.present, Kheap.entry, table, entry]
        exact Bool.not_eq_true _ ▸ taken
      · exact counting.usable page low (by omega)
    have reached := counting.reached
    have few := counting.few
    by_cases enough : n ≤ cursor.counter + 1
    · simp only [enough]
      refine ⟨counting.index, ?_, ?_, fun page low high => usable page low ?_⟩
      · exact Nat.le_antisymm few enough
      · change cursor.start + n ≤ 262144
        omega
      · change page < cursor.start + n at high
        omega
    · simp only [enough]
      refine ⟨counting.index, Nat.not_le.mp enough, ?_, usable⟩
      change cursor.start + (cursor.counter + 1) = _
      omega

theorem usedSearch_spec (heap : Kheap) (pos : 1 ≤ n) :
    EndsWith (FoundRun heap n) (Counting heap n 262144)
      (search (dirRound heap n) 512 0 ⟨0, 0, 0⟩) := by
  have round : ∀ i cursor, i < 512 → Counting heap n (512 * i) cursor →
      EndsWith (FoundRun heap n) (Counting heap n (512 * (i + 1))) (dirRound heap n cursor i) := by
    intro i cursor inDir counting
    unfold dirRound
    split
    · refine ⟨Nat.zero_le _, pos, rfl, fun page low high => ?_⟩
      simp only [Kcursor.start] at low
      omega
    · rename_i used
      simp only [Bool.or_eq_true, Bool.not_eq_true', not_or, Bool.not_eq_false] at used
      exact search_rule (tableRound_spec pos inDir used.1) 512 0 cursor rfl counting
  have start : Counting heap n (512 * 0) ⟨0, 0, 0⟩ :=
    ⟨Nat.zero_le _, pos, rfl, fun page low high => absurd high (by omega)⟩
  exact search_rule round 512 0 _ rfl start

/-- The directory entries being counted are not present. -/
structure CountingDirs (heap : Kheap) (n stop : Nat) (cursor : Kcursor) : Prop where
  index : cursor.ptidx = 0
  few : cursor.counter < n
  reached : 512 * cursor.pdidx + cursor.counter = 512 * stop
  absent : ∀ table, cursor.pdidx ≤ table → table < stop → pagePr (heap.dir table) = false

/-- Directory entries for at least `n` pages that are not present. -/
structure FoundDirs (heap : Kheap) (n : Nat) (cursor : Kcursor) : Prop where
  index : cursor.ptidx = 0
  bound : cursor.start + n ≤ 262144
  absent : ∀ page, cursor.start ≤ page → page < cursor.start + n →
    pagePr (heap.dir (page / 512)) = false

theorem freshSearch_spec (heap : Kheap) (pos : 1 ≤ n) :
    EndsWith (FoundDirs heap n) (CountingDirs heap n 512)
      (search (newDirRound heap n) 512 0 ⟨0, 0, 0⟩) := by
  have round : ∀ i cursor, i < 512 → CountingDirs heap n i cursor →
      EndsWith (FoundDirs heap n) (CountingDirs heap n (i + 1)) (newDirRound heap n cursor i) := by
    intro i cursor _ counting
    have reached := counting.reached
    unfold newDirRound
    split_ifs with used
    · exact ⟨rfl, pos, rfl, fun table low high => absurd high (Nat.not_lt.mpr low)⟩
    · have absent : ∀ table, cursor.pdidx ≤ table → table < i + 1 →
          pagePr (heap.dir table) = false := by
        intro table low high
        rcases Nat.lt_succ_iff_lt_or_eq.mp high with earlier | last
        · exact counting.absent table low earlier
        · subst last
          exact Bool.not_eq_true _ ▸ used
      by_cases enough : n ≤ cursor.counter + 512
      · simp only [EndsWith, enough]
        have start : Kcursor.start { cursor with counter := cursor.counter + 512 } =
            512 * cursor.pdidx := by
          simp [Kcursor.start, counting.index]
        refine ⟨counting.index, ?_, fun page low high => ?_⟩
        · omega
        · exact absent (page / 512) (by omega) (by omega)
      · simp only [enough]
        refine ⟨counting.index, Nat.not_le.mp enough, ?_, absent⟩
        change 512 * cursor.pdidx + (cursor.counter + 512) = _
        omega
  have start : CountingDirs heap n 0 ⟨0, 0, 0⟩ :=
    ⟨rfl, pos, rfl, fun table low high => absurd high (Nat.not_lt_zero _)⟩
  exact search_rule round 512 0 _ rfl start

/-! ## `mmu_kalloc` -/

/-- Tables that are not in use have no page taken. -/
def Kheap.Tidy (heap : Kheap) : Prop :=
  ∀ page < 262144, heap.present page = true → pagePr (heap.dir (page / 512)) = true

/-- `mmu_kalloc` handed out a run of pages none of which was taken. -/
structure HandsOut (heap next : Kheap) (n start : Nat) : Prop where
  bound : start + n ≤ 262144
  fresh : ∀ page, start ≤ page → page < start + n → heap.present page = false
  marked : Assigned 1 start n heap next
  used : ∀ page, start ≤ page → page < start + n → pagePr (next.dir (page / 512)) = true
  kept : ∀ table, pagePr (heap.dir table) = true → pagePr (next.dir table) = true

theorem Kcursor.address_eq {cursor : Kcursor} (pos : 1 ≤ n) (bound : cursor.start + n ≤ 262144) :
    cursor.address = heapBase + 0x1000 * cursor.start := by
  simp only [Kcursor.address, Kcursor.start, heapBase] at bound ⊢
  omega

theorem mmuKalloc_spec (tables : Nat → Nat) (heap : Kheap) (pos : 1 ≤ n) :
    mmuKalloc tables heap n = (heap, 0) ∨
      ∃ start, (mmuKalloc tables heap n).2 = heapBase + 0x1000 * start ∧ start + n ≤ 262144 ∧
        (heap.Tidy → HandsOut heap (mmuKalloc tables heap n).1 n start) := by
  have usedSearch := usedSearch_spec heap pos
  have freshSearch := freshSearch_spec heap pos
  unfold mmuKalloc
  dsimp only
  split
  · rename_i found
    simp only [EndsWith, found] at usedSearch
    obtain ⟨index, enough, bound, usable⟩ := usedSearch
    obtain ⟨sameDir, marked⟩ := @markPages_spec
      (search (dirRound heap n) 512 0 ⟨0, 0, 0⟩).1.counter _ _ heap index
    rw [enough] at sameDir marked
    refine Or.inr ⟨_, Kcursor.address_eq pos bound, bound, fun _ => ⟨bound,
      fun page low high => (usable page low high).2, ?_, ?_, ?_⟩⟩
    · rw [enough]
      exact marked
    · intro page low high
      rw [enough, sameDir]
      exact (usable page low high).1
    · intro table present
      rw [enough, sameDir]
      exact present
  · split
    · rename_i found
      simp only [EndsWith, found] at freshSearch
      generalize search (newDirRound heap n) 512 0 ⟨0, 0, 0⟩ = fresh at freshSearch
      obtain ⟨index, bound, absent⟩ := freshSearch
      obtain ⟨marked, kept, used⟩ := @markNewPages_spec tables n fresh.1.pdidx fresh.1.ptidx
        (heap.useTable tables fresh.1.pdidx) (by omega) (useTable_present tables heap _)
      refine Or.inr ⟨_, Kcursor.address_eq pos bound, bound, fun tidy =>
        ⟨bound, ?_, marked, used, ?_⟩⟩
      · intro page low high
        -- The table of the page is not in use.
        rw [← Bool.not_eq_true]
        intro taken
        have present := tidy page (by omega) taken
        rw [absent page low high] at present
        cases present
      · exact fun table present => kept table (useTable_dir tables heap _ table present)
    · exact .inl rfl

/-! ## `mmu_kfree` and `mmu_kmap` -/

theorem window_index (low : heapBase + 0x1000 * page ≤ virt)
    (high : virt < heapBase + 0x1000 * (page + 1)) (bound : page < 262144) :
    512 * pdIdx virt + ptIdx virt = page ∧ ptIdx virt < 512 := by
  simp only [pdIdx, ptIdx, heapBase] at low high ⊢
  omega

theorem mmuKfree_spec {n page : Nat} {heap : Kheap} (inWindow : page + n ≤ 262144) :
    (mmuKfree n (heapBase + 0x1000 * page) heap).dir = heap.dir ∧
      Assigned 0 page n heap (mmuKfree n (heapBase + 0x1000 * page) heap) := by
  induction n generalizing page heap with
  | zero => exact ⟨rfl, .none _ _ _⟩
  | succ n ih =>
    obtain ⟨index, inTable⟩ :=
      @window_index (heapBase + 0x1000 * page) page (Nat.le_refl _) (by omega) (by omega)
    obtain ⟨after, isAfter⟩ : ∃ after, after = heap.setEntry (pdIdx (heapBase + 0x1000 * page))
      (ptIdx (heapBase + 0x1000 * page)) 0 := ⟨_, rfl⟩
    -- Only after the last page of the window does the address wrap.
    have rest : (mmuKfree n (addWord (heapBase + 0x1000 * page) 0x1000) after).dir = after.dir ∧
        Assigned 0 (page + 1) n after
          (mmuKfree n (addWord (heapBase + 0x1000 * page) 0x1000) after) := by
      cases n with
      | zero => exact ⟨rfl, .none _ _ _⟩
      | succ n =>
        have stays : addWord (heapBase + 0x1000 * page) 0x1000 =
            heapBase + 0x1000 * (page + 1) := by
          simp only [addWord, heapBase]
          omega
        rw [stays]
        exact ih (by omega)
    rw [mmuKfree, ← isAfter]
    generalize mmuKfree n (addWord (heapBase + 0x1000 * page) 0x1000) after = final at *
    generalize pdIdx (heapBase + 0x1000 * page) = i at *
    generalize ptIdx (heapBase + 0x1000 * page) = j at *
    subst index isAfter
    exact ⟨rest.1, .step inTable rest.2⟩

/-! ## Runs -/

variable {tables : Nat → Nat}

/-- The calls on the window. -/
inductive KCall where
  | kalloc (n : Nat)
  | kmap (virt phys flags : Nat)
  | kfree (ptr n : Nat)
  deriving DecidableEq, Repr

/-- The tables, and the ranges that have been handed out and not been freed, as address
and number of pages. -/
structure KState where
  heap : Kheap
  live : List (Nat × Nat)

variable {state : KState}

/-- One call. -/
def kStep (tables : Nat → Nat) (state : KState) : KCall → Option KState
  | .kalloc n =>
      let done := mmuKalloc tables state.heap n
      some { heap := done.1
             live := if done.2 = 0 then state.live else (done.2, n) :: state.live }
  | .kmap virt phys flags => some { state with heap := mmuKmap state.heap virt phys flags }
  | .kfree ptr n => some { heap := mmuKfree n ptr state.heap, live := state.live.erase (ptr, n) }

/-- An address is in a range. -/
def InLive (live : Nat × Nat) (address : Nat) : Prop :=
  live.1 ≤ address ∧ address < live.1 + 0x1000 * live.2

/-- Pages are allocated, mapped present in live ranges, and freed by live ranges. -/
def Proper (state : KState) : KCall → Prop
  | .kalloc n => 1 ≤ n
  | .kmap virt _ flags => flags.testBit 0 = true ∧ ∃ range ∈ state.live, InLive range virt
  | .kfree ptr n => (ptr, n) ∈ state.live

/-- Two ranges have no address in common. -/
def Apart (range other : Nat × Nat) : Prop := ∀ address, ¬ (InLive range address ∧ InLive other address)

/-- The live ranges are page aligned, pairwise disjoint and in the window. -/
structure LiveRanges (live : List (Nat × Nat)) : Prop where
  aligned : ∀ range ∈ live, range.1 % 0x1000 = 0
  window : ∀ range ∈ live, heapBase ≤ range.1 ∧ range.1 + 0x1000 * range.2 ≤ 2 ^ 64
  disjoint : live.Pairwise Apart

/-- What `mmu_kalloc(n)` does: `n` pages that were not present, and no others, become
present, with the directory entries of their tables; or nothing changes. -/
def KallocSpec (tables : Nat → Nat) (heap : Kheap) (n : Nat) : Prop :=
  mmuKalloc tables heap n = (heap, 0) ∨
    ∃ start, (mmuKalloc tables heap n).2 = heapBase + 0x1000 * start ∧
      (∀ page, start ≤ page → page < start + n → heap.present page = false) ∧
      (∀ page, (mmuKalloc tables heap n).1.entry page =
        if start ≤ page ∧ page < start + n then 1 else heap.entry page) ∧
      ∀ page, start ≤ page → page < start + n →
        pagePr ((mmuKalloc tables heap n).1.dir (page / 512)) = true

/-- The pages of a range. -/
def Covers (range : Nat × Nat) (page : Nat) : Prop := InLive range (heapBase + 0x1000 * page)

def WholePages (range : Nat × Nat) : Prop :=
  ∃ start, range.1 = heapBase + 0x1000 * start ∧ 1 ≤ range.2 ∧ start + range.2 ≤ 262144

/-- The pages that are present are the pages of the live ranges. -/
structure KInv (state : KState) : Prop where
  pages : ∀ range ∈ state.live, WholePages range
  disjoint : state.live.Pairwise Apart
  present : ∀ page < 262144,
    state.heap.present page = true ↔ ∃ range ∈ state.live, Covers range page
  tidy : state.heap.Tidy

theorem covers_iff {start : Nat} :
    Covers (heapBase + 0x1000 * start, n) page ↔ start ≤ page ∧ page < start + n := by
  simp only [Covers, InLive]
  omega

theorem apart_of_pages (whole : WholePages range) (wholeOther : WholePages other)
    (none : ∀ page < 262144, ¬ (Covers range page ∧ Covers other page)) : Apart range other := by
  obtain ⟨_, _, _, _⟩ := whole
  obtain ⟨_, _, _, _⟩ := wholeOther
  intro address both
  apply none ((address - heapBase) / 0x1000)
  all_goals
    simp only [Covers, InLive] at both ⊢
    omega

theorem Apart.symm (apart : Apart range other) : Apart other range :=
  fun address both => apart address ⟨both.2, both.1⟩

theorem KInv.kalloc (inv : KInv state) (pos : 1 ≤ n) :
    ∃ next, kStep tables state (.kalloc n) = some next ∧ KInv next := by
  refine ⟨_, rfl, ?_⟩
  rcases mmuKalloc_spec tables state.heap pos with fails | ⟨start, isStart, _, runs⟩
  · rw [fails]
    exact inv
  · have handsOut := runs inv.tidy
    have notNull : (mmuKalloc tables state.heap n).2 ≠ 0 := by
      rw [isStart]
      simp only [heapBase]
      omega
    simp only [notNull, if_false]
    have whole : WholePages ((mmuKalloc tables state.heap n).2, n) :=
      ⟨start, isStart, pos, handsOut.bound⟩
    have pagesNew : ∀ page, Covers ((mmuKalloc tables state.heap n).2, n) page ↔
        start ≤ page ∧ page < start + n := by
      intro page
      rw [isStart]
      exact covers_iff
    have presentNow : ∀ page, (mmuKalloc tables state.heap n).1.present page = true ↔
        (start ≤ page ∧ page < start + n) ∨ state.heap.present page = true := by
      intro page
      rw [Kheap.present, handsOut.marked page]
      by_cases new : start ≤ page ∧ page < start + n
      · simp [new, pagePr]
      · simp [new, Kheap.present]
    constructor
    case pages =>
      exact forall_mem_cons.mpr ⟨whole, inv.pages⟩
    case disjoint =>
      refine pairwise_cons.mpr ⟨fun range mem => ?_, inv.disjoint⟩
      apply apart_of_pages whole (inv.pages range mem)
      rintro page bound ⟨new, old⟩
      rw [pagesNew] at new
      have taken := (inv.present page bound).mpr ⟨range, mem, old⟩
      rw [handsOut.fresh page new.1 new.2] at taken
      cases taken
    case present =>
      intro page bound
      rw [presentNow, inv.present page bound, exists_mem_cons_iff, pagesNew]
    case tidy =>
      intro page bound present
      rcases (presentNow page).mp present with new | old
      · exact handsOut.used page new.1 new.2
      · exact handsOut.kept _ (inv.tidy page bound old)

theorem KInv.kmap (inv : KInv state) {phys flags : Nat}
    (proper : Proper state (.kmap virt phys flags)) :
    ∃ next, kStep tables state (.kmap virt phys flags) = some next ∧ KInv next := by
  obtain ⟨isPresent, range, mem, low, high⟩ := proper
  obtain ⟨_, isStart, _, bound⟩ := inv.pages range mem
  -- The page that is mapped.
  obtain ⟨page, isPage⟩ : ∃ page, page = (virt - heapBase) / 0x1000 := ⟨_, rfl⟩
  rw [isStart] at low high
  have inWindow : page < 262144 := by
    omega
  obtain ⟨index, inTable⟩ := @window_index virt page (by omega) (by omega) inWindow
  have covered : Covers range page := by
    simp only [Covers, InLive]
    omega
  have samePresent : ∀ other, other < 262144 →
      (mmuKmap state.heap virt phys flags).present other = state.heap.present other := by
    intro other _
    rw [Kheap.present, mmuKmap, setEntry_entry inTable, index]
    by_cases same : other = page
    · subst same
      have taken := (inv.present other inWindow).mpr ⟨range, mem, covered⟩
      rw [if_pos rfl, taken]
      simp only [pagePr, Nat.testBit_or, isPresent, Bool.or_true]
    · rw [if_neg same]
      rfl
  refine ⟨_, rfl, inv.pages, inv.disjoint, fun other bound => ?_, fun other bound present => ?_⟩
  · exact (Bool.eq_iff_iff.mp (samePresent other bound)).trans (inv.present other bound)
  · exact inv.tidy other bound ((samePresent other bound).symm.trans present)

theorem KInv.kfree (inv : KInv state) {ptr : Nat} (isLive : (ptr, n) ∈ state.live) :
    ∃ next, kStep tables state (.kfree ptr n) = some next ∧ KInv next := by
  obtain ⟨start, isStart, _, bound⟩ := inv.pages _ isLive
  subst isStart
  obtain ⟨sameDir, freed⟩ := @mmuKfree_spec n start state.heap bound
  have taken := perm_cons_erase isLive
  have apart := (List.Perm.pairwise_iff Apart.symm taken).mp inv.disjoint
  obtain ⟨others, disjoint⟩ := pairwise_cons.mp apart
  have presentNow : ∀ page, (mmuKfree n (heapBase + 0x1000 * start) state.heap).present page =
      true ↔ ¬ (start ≤ page ∧ page < start + n) ∧ state.heap.present page = true := by
    intro page
    rw [Kheap.present, freed page]
    by_cases gone : start ≤ page ∧ page < start + n
    · simp [gone, pagePr]
    · simp [gone, Kheap.present]
  refine ⟨_, rfl, ?_, disjoint, fun page inWindow => ?_, fun page inWindow present => ?_⟩
  · exact fun range mem => inv.pages range (mem_of_mem_erase mem)
  · rw [presentNow, inv.present page inWindow, ← covers_iff]
    constructor
    · rintro ⟨notHere, range, mem, covers⟩
      rcases mem_cons.mp (taken.mem_iff.mp mem) with same | other
      · subst same
        exact absurd covers notHere
      · exact ⟨range, other, covers⟩
    · rintro ⟨range, mem, covers⟩
      exact ⟨fun here => others range mem _ ⟨here, covers⟩, range, mem_of_mem_erase mem, covers⟩
  · rw [sameDir]
    exact inv.tidy page inWindow ((presentNow page).mp present).2

theorem kStep_inv (tables : Nat → Nat) (state : KState) (call : KCall) (inv : KInv state)
    (proper : Proper state call) : ∃ next, kStep tables state call = some next ∧ KInv next := by
  cases call with
  | kalloc n => exact inv.kalloc proper
  | kmap _ _ _ => exact inv.kmap proper
  | kfree _ n => exact inv.kfree proper

theorem KInv.liveRanges (inv : KInv state) : LiveRanges state.live where
  aligned := by
    intro range mem
    obtain ⟨start, isStart, _, _⟩ := inv.pages range mem
    rw [isStart]
    simp only [heapBase]
    omega
  window := by
    intro range mem
    obtain ⟨start, isStart, _, _⟩ := inv.pages range mem
    rw [isStart]
    simp only [heapBase]
    omega
  disjoint := inv.disjoint

/-- After every sequence of calls from the state that `mmu_init` leaves, the live ranges
are in order, and the next `mmu_kalloc` hands out fresh pages or changes nothing. -/
theorem kalloc_ranges (tables : Nat → Nat) (calls : List KCall)
    (proper : Permitted (kStep tables) Proper { heap := mmuInit, live := [] } calls) :
    ∃ final, drive (kStep tables) { heap := mmuInit, live := [] } calls = some final ∧
      LiveRanges final.live ∧ ∀ n, 1 ≤ n → KallocSpec tables final.heap n := by
  have start : KInv { heap := mmuInit, live := [] } := by
    refine ⟨fun _ member => absurd member not_mem_nil, List.Pairwise.nil, ?_, ?_⟩
    · simp [Kheap.present, Kheap.entry, mmuInit, pagePr]
    · intro _ _ present
      simp [Kheap.present, Kheap.entry, mmuInit, pagePr] at present
  obtain ⟨final, driven, inv⟩ := drive_total (kStep_inv tables) calls _ start proper
  refine ⟨final, driven, inv.liveRanges, fun n positive => ?_⟩
  rcases mmuKalloc_spec tables final.heap positive with fails | ⟨start, isStart, _, runs⟩
  · exact .inl fails
  · have handsOut := runs inv.tidy
    exact .inr ⟨start, isStart, handsOut.fresh, handsOut.marked, handsOut.used⟩

/-- The physical addresses of the tables in a small layout. -/
def sampleTables (i : Nat) : Nat := 0x200000 + 0x1000 * i

/-- Three pages, one of which is mapped; one page more; and the three are freed. -/
theorem kalloc_ranges_freed : ∃ final, drive (kStep sampleTables) { heap := mmuInit, live := [] }
        [.kalloc 3, .kmap (heapBase + 0x1000) 0x5000 3, .kalloc 1, .kfree heapBase 3] = some final ∧
      final.live = [(heapBase + 0x3000, 1)] ∧ KallocSpec sampleTables final.heap 4 := by
  have proper : Permitted (kStep sampleTables) Proper { heap := mmuInit, live := [] }
      [.kalloc 3, .kmap (heapBase + 0x1000) 0x5000 3, .kalloc 1, .kfree heapBase 3] := by
    refine ⟨show 1 ≤ 3 by decide, fun _ stepped => ?_⟩
    obtain rfl := some.inj stepped
    refine ⟨⟨by decide, (heapBase, 3), by decide +kernel, by decide, by decide⟩,
      fun _ stepped => ?_⟩
    obtain rfl := some.inj stepped
    refine ⟨show 1 ≤ 1 by decide, fun _ stepped => ?_⟩
    obtain rfl := some.inj stepped
    refine ⟨?_, fun _ _ => trivial⟩
    change (heapBase, 3) ∈ _
    decide +kernel
  obtain ⟨final, driven, _, next⟩ := kalloc_ranges sampleTables _ proper
  have live : (drive (kStep sampleTables) { heap := mmuInit, live := [] }
      [.kalloc 3, .kmap (heapBase + 0x1000) 0x5000 3, .kalloc 1, .kfree heapBase 3]).map
        KState.live = some [(heapBase + 0x3000, 1)] := by
    decide +kernel
  rw [driven] at live
  exact ⟨final, driven, some.inj live, next 4 (by decide)⟩

end Micro.Mm
