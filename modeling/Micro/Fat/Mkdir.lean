import Micro.Fat.Clusters

/-!
# Making a directory

`fat_mkdir` takes a cluster from `fat_alloc_clus` and marks it only at the end, so that a directory
that has to be extended in between is given the same cluster.  It does not look at whether there
was one at all.
-/

namespace Micro.Fat

open Kern Lib List Option Function

variable {name : CStr} {buf slot : Buf} {j clusters dir head i : Nat} {written after : List Buf}
  {vol made : Volume} {chain : List Nat} {disk : Nat → Buf}

/-! ## Entries -/

/-- The 32 bytes of an entry, without what follows it in the sector. -/
def cut (slot : Buf) : Buf := bufOf (slice slot 0 32)

/-- An entry in use, if only as a deleted one. -/
def used (slot : Buf) : Bool := slot 0 ≠ 0

theorem used_eq_false : used slot = false ↔ slot 0 = 0 := by
  simp [used]

theorem cut_apply {k : Nat} (inside : k < 32) : cut slot k = slot k := by
  have read := @getElem?_slice 0 k slot 32 inside
  rw [Nat.zero_add] at read
  rw [cut, bufOf, List.getD, read, getD_some]

@[simp] theorem used_cut : used (cut slot) = used slot := by
  rw [used, used, cut_apply (by decide)]

@[simp] theorem kind_cut : kind (cut slot) = kind slot := by
  rw [kind, kind, attr, attr, cut_apply (show 0 < 32 by decide), cut_apply (show 11 < 32 by decide)]

@[simp] theorem lfn_cut : lfn (cut slot) = lfn slot := by
  have same : lfnPositions.map (cut slot) = lfnPositions.map slot := by
    apply map_congr_left
    intro k isPosition
    apply cut_apply
    have all : ∀ k ∈ lfnPositions, k < 32 := by decide
    exact all k isPosition
  rw [lfn, lfn, same]

theorem slice_cut {pos count : Nat} (inside : pos + count ≤ 32) :
    slice (cut slot) pos count = slice slot pos count :=
  slice_congr fun _ _ => cut_apply (by omega)

@[simp] theorem accepts_cut {rows : List CStr} :
    accepts rows (cut slot) name = accepts rows slot name := by
  simp only [accepts, fatNameCmp, slice_cut (show 0 + 8 ≤ 32 by decide),
    slice_cut (show 8 + 3 ≤ 32 by decide)]

@[simp] theorem startCluster_cut : startCluster (cut slot) = startCluster slot := by
  simp only [startCluster, le16, cut_apply (show 20 < 32 by decide), cut_apply (show 20 + 1 < 32 by decide),
    cut_apply (show 26 < 32 by decide), cut_apply (show 26 + 1 < 32 by decide)]

theorem slice_slotAt : slice (slotAt buf j) 0 32 = slice buf (32 * j) 32 := by
  simp only [slice, List.range'_eq_map_range, List.map_map]
  exact map_congr_left fun k _ => by simp [slotAt]

theorem kind_eq_unused : kind slot = .unused ↔ used slot = false := by
  rw [kind, used]
  by_cases isZero : slot 0 = 0
  · simp [isZero]
  · rw [if_neg isZero]
    refine iff_of_false ?_ (by simpa using isZero)
    split
    · decide
    · split
      · decide
      · decide

theorem lookupLoop_cut (name : CStr) (slots : List Buf) (rows : Option (List CStr)) :
    lookupLoop name rows (slots.map cut) = (lookupLoop name rows slots).map (Option.map cut) := by
  induction slots generalizing rows with
  | nil => rfl
  | cons slot _ ih =>
    rw [map_cons, lookupLoop, lookupLoop, kind_cut]
    cases isKind : kind slot with
    | unused => exact ih rows
    | reset => exact ih (some [])
    | fragment =>
      cases rows with
      | none => rfl
      | some rows =>
        simp only [bind_some]
        split
        · exact ih _
        · rfl
    | named =>
      cases rows with
      | none => rfl
      | some rows =>
        simp only [bind_some, accepts_cut]
        split
        · rfl
        · exact ih _

theorem lookupLoop_used (name : CStr) (slots : List Buf) (rows : Option (List CStr)) :
    lookupLoop name rows (slots.filter used) = lookupLoop name rows slots := by
  induction slots generalizing rows with
  | nil => rfl
  | cons slot _ ih =>
    cases isUsed : used slot with
    | false =>
      rw [filter_cons_of_neg (by simp [isUsed]), ih, lookupLoop, kind_eq_unused.mpr isUsed]
    | true =>
      rw [filter_cons_of_pos isUsed, lookupLoop, lookupLoop]
      simp only [ih]

/-! ## Appending -/

section Append

variable {dirent : List UInt8} {sectors : List Buf}

theorem slots_put_first {p : Buf → Bool}
    (isFirst : (range 16).find? (fun j => p (slotAt buf j)) = some j) (size : dirent.length = 32) :
    ∃ before after, slots buf = before ++ slotAt buf j :: after ∧ (∀ slot ∈ before, p slot = false) ∧
      p (slotAt buf j) = true ∧
      (slots (put buf (32 * j) dirent)).map cut = before.map cut ++ bufOf dirent :: after.map cut := by
  obtain ⟨passes, before, after, isRange, first⟩ := find?_eq_some_iff_append.mp isFirst
  have nodup : (before ++ j :: after).Nodup := isRange ▸ nodup_range
  have apart : ∀ i, i ≠ j → cut (slotAt (put buf (32 * j) dirent) i) = cut (slotAt buf i) := by
    intro i _
    apply congrArg bufOf
    apply slice_congr
    intro k _
    exact put_outside (by omega)
  have here : cut (slotAt (put buf (32 * j) dirent) j) = bufOf dirent := by
    have read := @slice_put (32 * j) dirent buf
    rw [size] at read
    rw [cut, slice_slotAt, read]
  refine ⟨before.map (slotAt buf), after.map (slotAt buf), ?_, ?_, passes, ?_⟩
  · rw [slots, isRange, map_append, map_cons]
  · intro slot isMem
    obtain ⟨i, isBefore, rfl⟩ := mem_map.mp isMem
    simpa using first i isBefore
  · rw [slots, isRange]
    simp only [List.map_append, List.map_cons, List.map_map]
    rw [nodup_append] at nodup
    congr 1
    · apply map_congr_left
      intro i isBefore
      exact apart i (nodup.2.2 i isBefore j mem_cons_self)
    · congr 1
      apply map_congr_left
      intro i isAfter
      apply apart i
      rintro rfl
      exact (nodup_cons.mp nodup.2.1).1 isAfter

theorem used_of_firstUnused (full : firstUnused buf = none) :
    ∀ slot ∈ slots buf, used slot = true := by
  intro slot isMem
  obtain ⟨i, inside, rfl⟩ := mem_map.mp isMem
  simpa [used] using find?_eq_none.mp full i inside

theorem slots_appendSector (size : dirent.length = 32)
    (appended : appendSector dirent sectors = some written) :
    ∃ before slot after, sectors.flatMap slots = before ++ slot :: after ∧
      (∀ slot ∈ before, used slot = true) ∧ used slot = false ∧
      (written.flatMap slots).map cut = before.map cut ++ bufOf dirent :: after.map cut := by
  induction sectors generalizing written with
  | nil => exact by simp [appendSector] at appended
  | cons buf rest ih =>
    rw [appendSector_cons] at appended
    cases isUnused : firstUnused buf with
    | some j =>
      simp only [isUnused, some.injEq] at appended
      subst appended
      obtain ⟨before, after, isSlots, inUse, isFree, isWritten⟩ :=
        @slots_put_first buf j dirent (fun slot => decide (slot 0 = 0)) isUnused size
      refine ⟨before, slotAt buf j, after ++ rest.flatMap slots, ?_, ?_, ?_, ?_⟩
      · simp [isSlots]
      · exact fun slot isMem => by simpa [used] using inUse slot isMem
      · simpa [used] using isFree
      · simp [isWritten]
    | none =>
      simp only [isUnused, map_eq_some_iff] at appended
      obtain ⟨_, appended, rfl⟩ := appended
      obtain ⟨before, slot, after, isSlots, inUse, isFree, isWritten⟩ := ih appended
      refine ⟨slots buf ++ before, slot, after, ?_, ?_, isFree, ?_⟩
      · simp [isSlots]
      · intro other isMem
        cases mem_append.mp isMem with
        | inr isLater => exact inUse other isLater
        | inl isHere => exact used_of_firstUnused isUnused other isHere
      · simp [isWritten]

theorem appendSector_eq_none (full : appendSector dirent sectors = none) :
    ∀ slot ∈ sectors.flatMap slots, used slot = true := by
  induction sectors with
  | nil => exact fun _ isMem => by simp at isMem
  | cons buf _ ih =>
    intro slot isMem
    rw [appendSector_cons] at full
    cases isUnused : firstUnused buf with
    | some j => simp [isUnused] at full
    | none =>
      simp only [isUnused, map_eq_none_iff] at full
      rw [flatMap_cons, mem_append] at isMem
      cases isMem with
      | inr isLater => exact ih full slot isLater
      | inl isHere => exact used_of_firstUnused isUnused slot isHere

/-- How many entries are unused. -/
def unusedCnt (slots : List Buf) : Nat := slots.countP fun slot => !used slot

theorem used_comp_cut : used ∘ cut = used := by
  funext slot
  exact used_cut

theorem unusedCnt_cut (slots : List Buf) : unusedCnt (slots.map cut) = unusedCnt slots := by
  rw [unusedCnt, countP_map]
  congr 1

theorem unusedCnt_append (size : dirent.length = 32)
    (appended : appendSector dirent sectors = some written) :
    unusedCnt (sectors.flatMap slots) =
      unusedCnt (written.flatMap slots) + if used (bufOf dirent) then 1 else 0 := by
  obtain ⟨_, _, _, isSlots, -, isFree, isWritten⟩ := slots_appendSector size appended
  rw [← unusedCnt_cut, ← unusedCnt_cut (written.flatMap slots), isWritten, isSlots]
  simp only [map_append, map_cons, unusedCnt, countP_append, countP_cons, used_cut, isFree]
  cases used (bufOf dirent) with
  | true => simp [Nat.add_assoc]
  | false => simp

theorem unusedCnt_full (full : appendSector dirent sectors = none) :
    unusedCnt (sectors.flatMap slots) = 0 := by
  rw [unusedCnt, countP_eq_zero]
  intro slot isMem
  simp [appendSector_eq_none full slot isMem]

variable (size : dirent.length = 32) (appended : appendSector dirent sectors = some written)
include size appended

theorem unusedCnt_pos : 0 < unusedCnt (sectors.flatMap slots) := by
  obtain ⟨_, slot, _, isSlots, -, isFree, -⟩ := slots_appendSector size appended
  rw [isSlots, unusedCnt, countP_pos_iff]
  exact ⟨slot, by simp, by simp [isFree]⟩

theorem used_append :
    ∃ after : List Buf, (∀ slot ∈ after, slot ∈ sectors.flatMap slots) ∧
      ((written.flatMap slots).map cut).filter used =
        ((sectors.flatMap slots).takeWhile used).map cut ++
          ([bufOf dirent].filter used ++ after.map cut) ∧
      ((sectors.flatMap slots).map cut).filter used =
        ((sectors.flatMap slots).takeWhile used).map cut ++ after.map cut := by
  obtain ⟨before, slot, after, isSlots, inUse, isFree, isWritten⟩ := slots_appendSector size appended
  have isBefore : (sectors.flatMap slots).takeWhile used = before := by
    rw [isSlots, takeWhile_append_of_pos inUse, takeWhile_cons_of_neg (by simp [isFree]),
      append_nil]
  refine ⟨after.filter used, ?_, ?_, ?_⟩
  · intro _ isMem
    rw [isSlots]
    simp [(mem_filter.mp isMem).1]
  · rw [isBefore, isWritten, List.filter_append, List.filter_map, used_comp_cut,
      List.filter_eq_self.mpr inUse, ← List.singleton_append, List.filter_append, List.filter_map,
      used_comp_cut]
  · rw [isBefore, isSlots, List.filter_map, used_comp_cut, List.filter_append,
      filter_eq_self.mpr inUse, filter_cons_of_neg (by simp [isFree]), map_append]

end Append

/-! ## The new entry -/

/-- The entry of zeros behind it. -/
def zeroDirent : List UInt8 := List.replicate 32 0

section NewDirent

variable {cluster : Nat}

theorem length_to8dot3 : (to8dot3 name).1.length = 8 ∧ (to8dot3 name).2.length = 3 := by
  have short : (name.takeWhile fun c => c ≠ 0x2e).length ≤ name.length :=
    (takeWhile_sublist _).length_le
  simp only [to8dot3, length_append, length_take, length_replicate]
  omega

theorem length_newDirent : (newDirent name cluster).length = 32 := by
  simp [newDirent, length_to8dot3, bytes16]

theorem bufOf_eq_put (bytes : List UInt8) : bufOf bytes = put (fun _ => 0) 0 bytes := by
  funext k
  simp [bufOf, put]

theorem slice_newDirent : slice (bufOf (newDirent name cluster)) 0 32 = newDirent name cluster := by
  rw [bufOf_eq_put, ← length_newDirent]
  exact slice_put

theorem fatNameCmp_newDirent : fatNameCmp (bufOf (newDirent name cluster)) name = true := by
  have isName : slice (bufOf (newDirent name cluster)) 0 8 = (to8dot3 name).1 := by
    rw [← @take_slice 0 _ 32 8 (by decide), slice_newDirent, newDirent]
    simp only [append_assoc]
    exact take_left' length_to8dot3.1
  have isExt : slice (bufOf (newDirent name cluster)) 8 3 = (to8dot3 name).2 := by
    have dropped := @drop_slice 0 (bufOf (newDirent name cluster)) 32 8
    rw [← @take_slice 8 _ 24 3 (by decide), ← dropped, slice_newDirent, newDirent]
    simp only [append_assoc]
    rw [drop_left' length_to8dot3.1]
    exact take_left' length_to8dot3.2
  simp [fatNameCmp, isName, isExt]

theorem accepts_newDirent {rows : List CStr} :
    accepts rows (bufOf (newDirent name cluster)) name = true ↔ rows = [] ∨ joinLfns rows = name := by
  by_cases short : rows = []
  · simp [accepts, fatNameCmp_newDirent]
  · simp [accepts, short]

theorem startCluster_newDirent : startCluster (bufOf (newDirent name cluster)) = cluster % 2 ^ 16 := by
  have lengths := @length_to8dot3 name
  have upper : le16 (bufOf (newDirent name cluster)) 20 = 0 := by
    refine @le16_put_at 0 20 0 _ ((to8dot3 name).1 ++ (to8dot3 name).2 ++ [0x10] ++
      replicate 8 0) (replicate 4 0 ++ bytes16 cluster ++ replicate 4 0) (fun _ => 0) ?_ ?_
    · simp [newDirent, bytes16]
    · simp [lengths]
  have lower : le16 (bufOf (newDirent name cluster)) 26 = cluster % 2 ^ 16 := by
    refine @le16_put_at 0 26 cluster _ ((to8dot3 name).1 ++ (to8dot3 name).2 ++ [0x10] ++
      replicate 14 0) (replicate 4 0) (fun _ => 0) ?_ ?_
    · simp [newDirent]
    · simp [lengths]
  rw [startCluster, upper, lower, Nat.zero_mul, Nat.zero_add]

/-- Its first byte is that of the name, or a blank. -/
theorem newDirent_first : bufOf (newDirent name cluster) 0 = match name.head? with
    | some c => if c = 0x2e then 0x20 else c
    | none => 0x20 := by
  cases name with
  | nil => rfl
  | cons c rest =>
    by_cases isDot : c = 0x2e
    · subst isDot
      rfl
    · have len : ∃ len, min ((c :: rest).takeWhile fun c => c ≠ 0x2e).length 8 = len + 1 := by
        rw [takeWhile_cons_of_pos (by simpa using isDot), length_cons]
        exact ⟨min (rest.takeWhile fun c => c ≠ 0x2e).length 7, by omega⟩
      obtain ⟨len, isLen⟩ := len
      simp only [bufOf, newDirent, to8dot3, isLen, take_succ_cons, cons_append,
        getD_cons_zero, head?_cons, if_neg isDot]

theorem used_newDirent (string : 0 ∉ name) : used (bufOf (newDirent name cluster)) = true := by
  simp only [used, decide_eq_true_eq]
  rw [newDirent_first]
  cases name with
  | nil => decide
  | cons c _ =>
    simp only [head?_cons]
    split
    · decide
    · exact fun isZero => string (isZero ▸ mem_cons_self)

/-- It is taken for a deleted one when the name begins with the mark of those. -/
theorem kind_newDirent (string : 0 ∉ name) :
    kind (bufOf (newDirent name cluster)) = .named ↔ name.head? ≠ some 0xe5 := by
  have isUsed := @used_newDirent name cluster string
  have isAttr : attr (bufOf (newDirent name cluster)) = 0x10 := by
    have lengths := @length_to8dot3 name
    have short : ((to8dot3 name).1 ++ (to8dot3 name).2).length = 11 := by simp [lengths]
    rw [attr, bufOf, newDirent, append_assoc, append_assoc, append_assoc, List.getD,
      getElem?_append_right (Nat.le_of_eq short), short]
    rfl
  have notZero : bufOf (newDirent name cluster) 0 ≠ 0 := by simpa [used] using isUsed
  have deleted : bufOf (newDirent name cluster) 0 = 0xe5 ↔ name.head? = some 0xe5 := by
    rw [newDirent_first]
    cases name with
    | nil => decide
    | cons c _ =>
      simp only [head?_cons, some.injEq]
      split
      · rename_i isDot
        subst isDot
        decide
      · rfl
  rw [kind, if_neg notZero, isAttr, ne_eq, ← deleted]
  simp

theorem used_zeroDirent : used (bufOf zeroDirent) = false := by decide

end NewDirent

/-! ## Looking up the new entry -/

variable {found : Buf}

/-- The rows of fragments that `fat_lookup` has when it gets behind some entries, without one that
it takes for the name. -/
def lookupRows (name : CStr) : (lfns : Option (List CStr)) → List Buf → Option (List CStr)
  | lfns, [] => lfns
  | lfns, slot :: rest =>
      match kind slot with
      | .unused => lookupRows name lfns rest
      | .reset => lookupRows name (some []) rest
      | .fragment => lfns.bind fun rows =>
          if rows.length < 8 then lookupRows name (some (rows ++ [lfn slot])) rest else none
      | .named => lfns.bind fun rows =>
          if accepts rows slot name then none
          else lookupRows name (if rows = [] then some [] else none) rest

theorem lookupRows_cut (name : CStr) : ∀ (slots : List Buf) (rows : Option (List CStr)),
    lookupRows name rows (slots.map cut) = lookupRows name rows slots := by
  intro slots
  induction slots with
  | nil => exact fun _ => rfl
  | cons _ _ ih =>
    intro rows
    rw [map_cons, lookupRows, lookupRows]
    simp only [kind_cut, lfn_cut, accepts_cut, ih]

/-- An entry that is found is the first one, or it is found among the others with the rows there
are behind the first one. -/
theorem lookupLoop_cons {rest : List Buf} {rows : Option (List CStr)}
    (looked : lookupLoop name rows (slot :: rest) = some (some found)) :
    (found = slot ∧ kind slot = .named ∧ ∃ lfns, rows = some lfns ∧ accepts lfns slot name = true) ∨
      ∃ next, lookupLoop name next rest = some (some found) ∧
        ∀ others, lookupRows name rows (slot :: others) = lookupRows name next others := by
  simp only [lookupRows]
  rw [lookupLoop] at looked
  cases isKind : kind slot with
  | unused =>
    simp only [isKind] at looked ⊢
    exact .inr ⟨rows, looked, fun _ => rfl⟩
  | reset =>
    simp only [isKind] at looked ⊢
    exact .inr ⟨_, looked, fun _ => rfl⟩
  | fragment =>
    simp only [isKind, bind_eq_some_iff] at looked
    obtain ⟨lfns, rfl, looked⟩ := looked
    split at looked
    · rename_i fits
      exact .inr ⟨_, looked, fun _ => by simp only [bind_some, if_pos fits]⟩
    · cases looked
  | named =>
    simp only [isKind, bind_eq_some_iff] at looked
    obtain ⟨lfns, rfl, looked⟩ := looked
    split at looked
    · rename_i accepted
      rw [some.injEq, some.injEq] at looked
      exact .inl ⟨looked.symm, rfl, lfns, rfl, accepted⟩
    · rename_i refused
      exact .inr ⟨_, looked, fun _ => by simp only [bind_some, if_neg refused]⟩

theorem lookupLoop_mem (slots : List Buf) (rows : Option (List CStr))
    (looked : lookupLoop name rows slots = some (some found)) :
    found ∈ slots ∧ kind found = .named := by
  induction slots generalizing rows with
  | nil => exact by simp [lookupLoop] at looked
  | cons _ _ ih =>
    cases lookupLoop_cons looked with
    | inl isFirst =>
      obtain ⟨rfl, isNamed, -⟩ := isFirst
      exact ⟨mem_cons_self, isNamed⟩
    | inr isLater =>
      obtain ⟨next, looked, -⟩ := isLater
      exact (ih next looked).imp_left (mem_cons_of_mem _)

theorem lookupLoop_found (before : List Buf) (rows : Option (List CStr))
    (looked : lookupLoop name rows (before ++ slot :: after) = some (some found)) :
    (found ∈ before ++ after ∧ kind found = .named) ∨ kind slot = .named ∧
      ∃ r, lookupRows name rows before = some r ∧ accepts r slot name = true := by
  induction before generalizing rows with
  | nil =>
    cases lookupLoop_cons looked with
    | inl isFirst => exact .inr isFirst.2
    | inr isLater =>
      obtain ⟨next, looked, -⟩ := isLater
      exact .inl (lookupLoop_mem after next looked)
  | cons _ before ih =>
    cases lookupLoop_cons looked with
    | inl isFirst =>
      obtain ⟨rfl, isNamed, -⟩ := isFirst
      exact .inl ⟨mem_cons_self, isNamed⟩
    | inr isLater =>
      obtain ⟨next, looked, same⟩ := isLater
      rw [same]
      exact (ih next looked).imp_left fun isFound => ⟨mem_cons_of_mem _ isFound.1, isFound.2⟩

/-- An entry that is reached and accepted is found. -/
theorem lookupLoop_reached {r : List CStr} (isNamed : kind slot = .named)
    (accepted : accepts r slot name = true) (before : List Buf) (rows : Option (List CStr))
    (reached : lookupRows name rows before = some r) :
    lookupLoop name rows (before ++ slot :: after) = some (some slot) := by
  induction before generalizing rows with
  | nil =>
    rw [lookupRows] at reached
    rw [nil_append, lookupLoop, isNamed, reached]
    simp [accepted]
  | cons first before ih =>
    rw [lookupRows] at reached
    rw [cons_append, lookupLoop]
    cases isKind : kind first with
    | unused =>
      simp only [isKind] at reached ⊢
      exact ih rows reached
    | reset =>
      simp only [isKind] at reached ⊢
      exact ih _ reached
    | fragment =>
      simp only [isKind, bind_eq_some_iff] at reached ⊢
      obtain ⟨lfns, rfl, reached⟩ := reached
      split at reached
      · rename_i fits
        exact ⟨lfns, rfl, by rw [if_pos fits, ih _ reached]⟩
      · cases reached
    | named =>
      simp only [isKind, bind_eq_some_iff] at reached ⊢
      obtain ⟨lfns, rfl, reached⟩ := reached
      split at reached
      · cases reached
      · rename_i refused
        exact ⟨lfns, rfl, by rw [if_neg refused, ih _ reached]⟩

/-! ## The chains afterwards -/

def HasFree (vol : Volume) (clusters : Nat) : Prop :=
  ∃ c, 2 ≤ c ∧ c < clusters ∧ fatTableRead vol c = 0

/-- What a volume ought to be like after `fat_mkdir`.  With a free cluster, the new directory is
found at the cluster allocated for it, whose chain has nothing in common with the others.
Without one, the table and the directory are as before. -/
structure MadeDir (vol : Volume) (clusters : Nat) (heads : List Nat) (dir : Nat) (name : CStr)
    (made : Volume) : Prop where
  exclusive : HasFree vol clusters → Exclusive made clusters (fatAllocClus vol :: heads)
  found : HasFree vol clusters → ∃ found, fatLookup made dir name = some (.ok found) ∧
    found.inode = fatAllocClus vol
  table : ¬ HasFree vol clusters → ∀ i < clusters, fatTableRead made i = fatTableRead vol i
  directory : ¬ HasFree vol clusters → dirSlots made dir = dirSlots vol dir

/-- `fat_mkdir` returns, and leaves such a volume. -/
def MakesDir (vol : Volume) (clusters : Nat) (heads : List Nat) (dir : Nat) (name : CStr) : Prop :=
  ∃ made, fatMkdir vol dir name = some made ∧ MadeDir vol clusters heads dir name made

/-- What it takes: a free cluster that `sector_cnt` counts; two unused entries, one for the new
directory and one for the zeros behind it; and entries in front of them that `fat_lookup` gets
past. -/
structure HasRoom (vol : Volume) (clusters : Nat) (name : CStr) (directory : List Buf) : Prop where
  free : ∃ c, 2 ≤ c ∧ c < clusters ∧ c < vol.sectorCnt / vol.sectorsPerCluster ∧ fatTableRead vol c = 0
  unused : 2 ≤ unusedCnt directory
  notDeleted : name.head? ≠ some 0xe5
  reached : ∃ rows, lookupRows name (some []) (directory.takeWhile used) = some rows ∧
    (rows = [] ∨ joinLfns rows = name)

section Mkdir

variable {others : List Nat} {x : Nat}

theorem fatMkdir_eq (formatted : Formatted vol clusters) : fatMkdir vol dir name =
    (direntAppend (newDirent name (fatAllocClus vol)) (2 ^ 32) dir vol).bind fun vol' =>
      (direntAppend zeroDirent (2 ^ 32) dir vol').map fun vol'' =>
        fatTableWrite vol'' (fatAllocClus vol) 0xffffff8 := by
  have small := formatted.fatAllocClus_lt
  rw [fatMkdir, Nat.mod_eq_of_lt small, fatMkdirent, map_bind]
  rfl

theorem Chain.alloc_not_mem (isChain : Chain vol clusters dir chain) : fatAllocClus vol ∉ chain := by
  intro isMem
  have mem := isChain.member _ isMem
  cases fatAllocClus_cases vol with
  | inl _ => omega
  | inr allocated => exact mem.2.2 allocated.2.2

theorem Chain.follows (formatted : Formatted vol clusters) (small : x < 0xffffff8) :
    ∀ {trail : List Nat} {head : Nat} {chain : List Nat}, (∀ c ∈ trail, c < clusters) →
    trail.head? = some head → Chain vol clusters head chain →
    (trail ++ [x]).IsChain (fun c next => fatTableRead vol c = next ∨ fatTableRead vol c = 0) →
    x ∈ chain := by
  have numbers := formatted.numbers
  intro trail
  induction trail with
  | nil => nofun
  | cons c rest ih =>
    intro head chain inside isHead isChain linked
    rw [head?_cons, some.injEq] at isHead
    subst isHead
    -- the entry of the first cluster is neither zero nor an end
    cases rest with
    | nil =>
      have isLink := (isChain_cons_cons.mp linked).1
      cases isChain with
      | last two inside' ends => omega
      | link two inside' isNext later =>
        have two' := later.two_le
        have isX : x = fatTableRead vol c := by omega
        rw [isX, isNext]
        exact mem_cons_of_mem _ later.head_mem
    | cons d rest =>
      obtain ⟨isLink, linked⟩ := isChain_cons_cons.mp linked
      have isD := inside d (by simp)
      cases isChain with
      | last two inside' ends => omega
      | link two inside' isNext later =>
        have two' := later.two_le
        have sameD : d = fatTableRead vol c := by omega
        rw [isNext] at sameD
        subst sameD
        refine mem_cons_of_mem _ (ih ?_ rfl later linked)
        exact fun e isMem => inside e (mem_cons_of_mem _ isMem)

theorem isChain_append_singleton_imp {first second : Nat → Nat → Prop}
    (implies : ∀ c next, c ∈ chain → next ∈ chain ++ [x] → first c next → second c next)
    (linked : (chain ++ [x]).IsChain first) : (chain ++ [x]).IsChain second := by
  obtain ⟨inChain, -, atEnd⟩ := isChain_append.mp linked
  refine isChain_append.mpr ⟨?_, isChain_singleton _, ?_⟩
  · refine inChain.imp_of_mem_imp fun c next isMem isNext => ?_
    exact implies c next isMem (mem_append_left _ isNext)
  · intro c isLast next isNext
    rw [head?_cons, mem_some_iff] at isNext
    subst isNext
    exact implies c _ (mem_of_getLast? isLast) (by simp) (atEnd c isLast _ rfl)

section

variable (formatted : Formatted vol clusters)
include formatted

theorem Written.fatTableRead_eq (isWritten : Written vol clusters chain written disk)
    (inside : i < clusters) : fatTableRead (vol.on disk) i = fatTableRead vol i :=
  fatTableRead_congr (isWritten.table _ (formatted.fatSector_lt inside))

theorem Written.isChain (isWritten : Written vol clusters chain written disk)
    (isChain : Chain vol clusters head others) : Chain (vol.on disk) clusters head others :=
  isChain.congr fun c isMem => isWritten.fatTableRead_eq formatted (isChain.member c isMem).2.1

theorem Chain.length_le_fuel (isChain : Chain vol clusters dir chain) (nodup : chain.Nodup) :
    chain.length ≤ 2 ^ 32 := by
  have short := isChain.length_le nodup
  have numbers := formatted.numbers
  omega

end

theorem Chain.head?_eq (isChain : Chain vol clusters dir chain) : chain.head? = some dir := by
  cases isChain with
  | last => rfl
  | link => rfl

/-- The disk after the two entries have been written, and nothing has been hung on. -/
structure Entered (vol : Volume) (chain : List Nat) (name : CStr) (disk : Nat → Buf) : Prop where
  table : ∀ lba < dataStart vol, disk lba = vol.disk lba
  unused : unusedCnt ((sectors vol chain).flatMap slots) =
    unusedCnt ((sectors (vol.on disk) chain).flatMap slots) + 1
  entries : ∃ after : List Buf, (∀ slot ∈ after, slot ∈ (sectors vol chain).flatMap slots) ∧
    (((sectors (vol.on disk) chain).flatMap slots).map cut).filter used =
      (((sectors vol chain).flatMap slots).takeWhile used).map cut ++
        bufOf (newDirent name (fatAllocClus vol)) :: after.map cut

section

variable (formatted : Formatted vol clusters) (isChain : Chain vol clusters dir chain)
  (nodup : chain.Nodup) (string : 0 ∉ name)
include formatted isChain nodup string

/-- With fewer than two unused entries, some cluster is hung on to the chain of the directory, and
it is the one for the new directory if there is one. -/
theorem fatMkdir_extends (crowded : unusedCnt ((sectors vol chain).flatMap slots) < 2)
    (isMade : fatMkdir vol dir name = some made) :
    ∃ x, x ∉ chain ∧ (fatAllocClus vol ≠ 0 → fatAllocClus vol < clusters → x = fatAllocClus vol) ∧
      ∀ {others}, Chain made clusters dir others → x ∈ others := by
  have enough := isChain.length_le_fuel formatted nodup
  have numbers := formatted.numbers
  have inside : ∀ c ∈ chain, c < clusters := fun c isMem => (isChain.member c isMem).2.1
  have isDir := isChain.head_lt
  simp only [fatMkdir_eq formatted, bind_eq_some_iff, map_eq_some_iff] at isMade
  obtain ⟨first, appended, second, ended, rfl⟩ := isMade
  obtain ⟨_, _, _, -, -, -, isFirst, -⟩ := direntAppend_kept formatted (by omega) appended
  have formatted' : Formatted first clusters := isFirst ▸ formatted.on _
  obtain ⟨_, _, _, -, -, -, isSecond, -⟩ := direntAppend_kept formatted' (by omega) ended
  have formatted'' : Formatted second clusters := isSecond ▸ formatted'.on _
  -- it is enough that the links are there before the new cluster is marked
  have follow : ∀ {x : Nat}, x < 2 ^ 16 → (chain ++ [x]).IsChain (fun c next =>
      fatTableRead second c = next ∨ fatTableRead second c = 0) →
      ∀ {others}, Chain (fatTableWrite second (fatAllocClus vol) 0xffffff8) clusters dir others →
        x ∈ others := by
    intro x small linked others isOthers
    have small' := formatted.fatAllocClus_lt
    have same : ∀ c ∈ chain,
        fatTableRead (fatTableWrite second (fatAllocClus vol) 0xffffff8) c = fatTableRead second c := by
      intro c isMem
      have isCluster := inside c isMem
      apply fatTableRead_write_ne _ (by omega) (by omega)
      exact fun isAlloc => isChain.alloc_not_mem (isAlloc ▸ isMem)
    exact isOthers.follows formatted''.write (by omega) inside isChain.head?_eq
      (isChain_append_singleton_imp (fun c next isMem _ linked => by rwa [same c isMem]) linked)
  cases fits : appendSector (newDirent name (fatAllocClus vol)) (sectors vol chain) with
  | none =>
    obtain ⟨allocated, linked⟩ := direntAppend_extends formatted isChain fits enough appended
    have small := formatted.fatAllocClus_lt
    refine ⟨fatAllocClus vol, isChain.alloc_not_mem, fun _ _ => rfl, follow small ?_⟩
    refine isChain_append_singleton_imp (fun c next isMem isNext linked => ?_) linked
    have isCluster := inside c isMem
    have isLink : 0 < next ∧ next < 0xffffff8 := by
      cases mem_append.mp isNext with
      | inl isLater =>
        have member := isChain.member next isLater
        omega
      | inr isLast =>
        rw [mem_singleton.mp isLast]
        omega
    rw [← linked] at isLink ⊢
    exact direntAppend_zero formatted' (by omega) (by omega) ended isLink.1 isLink.2
  | some written =>
    obtain ⟨disk, isAppend, isWritten⟩ := direntAppend_found formatted isChain nodup fits enough
    rw [appended, some.injEq] at isAppend
    subst isAppend
    have isChain' := isWritten.isChain formatted isChain
    have full : appendSector zeroDirent (sectors (vol.on disk) chain) = none := by
      rw [isWritten.contents]
      cases fits' : appendSector zeroDirent written with
      | none => rfl
      | some _ =>
        have one := unusedCnt_append length_newDirent fits
        have more := unusedCnt_pos rfl fits'
        rw [used_newDirent string, if_pos rfl] at one
        omega
    obtain ⟨-, linked⟩ := direntAppend_extends formatted' isChain' full enough ended
    refine ⟨fatAllocClus (vol.on disk), isChain'.alloc_not_mem, ?_, ?_⟩
    · intro allocated isCluster
      refine fatAllocClus_on allocated fun k _ => ?_
      exact isWritten.fatTableRead_eq formatted (by omega)
    · exact follow formatted'.fatAllocClus_lt (linked.imp fun _ _ => .inl)

/-- With two unused entries, nothing is hung on. -/
theorem fatMkdir_enters (room : 2 ≤ unusedCnt ((sectors vol chain).flatMap slots)) :
    ∃ disk, fatMkdir vol dir name = some (fatTableWrite (vol.on disk) (fatAllocClus vol) 0xffffff8) ∧
      Entered vol chain name disk := by
  have enough := isChain.length_le_fuel formatted nodup
  cases fits : appendSector (newDirent name (fatAllocClus vol)) (sectors vol chain) with
  | none =>
    rw [unusedCnt_full fits] at room
    omega
  | some written =>
    obtain ⟨disk, appended, isWritten⟩ := direntAppend_found formatted isChain nodup fits enough
    have isChain' := isWritten.isChain formatted isChain
    have one := unusedCnt_append length_newDirent fits
    rw [used_newDirent string, if_pos rfl] at one
    cases fits' : appendSector zeroDirent written with
    | none =>
      rw [unusedCnt_full fits'] at one
      omega
    | some written' =>
      rw [← isWritten.contents] at fits'
      obtain ⟨disk', ended, isEnded⟩ := direntAppend_found (formatted.on disk) isChain' nodup fits' enough
      have none := unusedCnt_append (by rfl) fits'
      rw [isWritten.contents] at none
      obtain ⟨after, isAfter, entries, -⟩ := used_append length_newDirent fits
      obtain ⟨_, -, entries', same⟩ := used_append (by rfl) fits'
      refine ⟨disk', ?_, ?_, ?_, after, isAfter, ?_⟩
      · rw [fatMkdir_eq formatted, appended, bind_some, ended]
        rfl
      · intro lba front
        rw [isEnded.table lba front]
        exact isWritten.table lba front
      · have isSame : sectors (vol.on disk') chain = written' := isEnded.contents
        rw [isSame, one, none]
        rfl
      · have isSame : sectors (vol.on disk') chain = written' := isEnded.contents
        rw [isSame, entries', filter_cons_of_neg (by simp [used_zeroDirent]), filter_nil,
          nil_append, ← same, isWritten.contents, entries,
          filter_cons_of_pos (used_newDirent string)]
        rfl

end

section

variable (formatted : Formatted vol clusters)
include formatted

theorem Entered.isChain (entered : Entered vol chain name disk)
    (isChain : Chain vol clusters head others) :
    Chain (fatTableWrite (vol.on disk) (fatAllocClus vol) 0xffffff8) clusters head others := by
  refine isChain.congr fun c isMem => ?_
  have inside := (isChain.member c isMem).2.1
  have numbers := formatted.numbers
  have small := formatted.fatAllocClus_lt
  have ne : fatAllocClus vol ≠ c := fun same => isChain.alloc_not_mem (same ▸ isMem)
  rw [fatTableRead_write_ne ne (by omega) (by omega)]
  exact fatTableRead_congr (entered.table _ (formatted.fatSector_lt inside))

theorem sectors_marked (isChain : Chain vol clusters dir chain)
    (inside : fatAllocClus vol < clusters) :
    sectors (fatTableWrite (vol.on disk) (fatAllocClus vol) 0xffffff8) chain =
      sectors (vol.on disk) chain := by
  apply map_congr_left
  intro c isMem
  obtain ⟨two, isCluster, -⟩ := isChain.member c isMem
  apply update_of_ne
  have front := formatted.fatSector_lt inside
  have behind := formatted.clus2lba_eq two isCluster
  change clus2lba vol c ≠ fatSector vol (fatAllocClus vol)
  omega

end

/-- The first byte of an entry is not set to zero by a mark. -/
theorem mark_byte {lba : Nat} (isZero : (fatTableWrite vol i 0xffffff8).disk lba (32 * j) = 0) :
    vol.disk lba (32 * j) = 0 := by
  by_cases hit : lba = fatSector vol i
  · subst hit
    rw [show (fatTableWrite vol i 0xffffff8).disk (fatSector vol i) =
      put (vol.disk (fatSector vol i)) (fatOff i) (bytes32 0xffffff8) from update_self ..] at isZero
    have aligned : fatOff i % 4 = 0 := by
      rw [fatOff]
      omega
    by_cases here : 32 * j = fatOff i
    · have isMark := @put_inside (fatOff i) 0 (bytes32 0xffffff8) (vol.disk (fatSector vol i)) 0xf8
          (by decide)
      rw [here] at isZero
      rw [Nat.add_zero, isZero] at isMark
      exact absurd isMark (by decide)
    · rwa [put_outside] at isZero
      have four : (bytes32 0xffffff8).length = 4 := rfl
      omega
  · rwa [show (fatTableWrite vol i 0xffffff8).disk lba = vol.disk lba from
      update_of_ne hit ..] at isZero

theorem unusedCnt_sectors_cons {c : Nat} : unusedCnt ((sectors vol (c :: chain)).flatMap slots) =
    unusedCnt (slots (vol.disk (clus2lba vol c))) + unusedCnt ((sectors vol chain).flatMap slots) := by
  simp only [sectors_cons, flatMap_cons, unusedCnt, countP_append]

/-- Marking a cluster leaves no entry of the directory unused that is used, wherever in the volume
the mark is. -/
theorem unusedCnt_marked :
    unusedCnt ((sectors (fatTableWrite vol i 0xffffff8) chain).flatMap slots) ≤
      unusedCnt ((sectors vol chain).flatMap slots) := by
  induction chain with
  | nil => simp [sectors]
  | cons c _ ih =>
    rw [unusedCnt_sectors_cons, unusedCnt_sectors_cons]
    refine Nat.add_le_add ?_ ih
    simp only [unusedCnt, slots, countP_map]
    apply countP_mono_left
    intro j _ isUnused
    rw [comp_apply, Bool.not_eq_true', used_eq_false] at isUnused ⊢
    exact mark_byte isUnused

section

variable (formatted : Formatted vol clusters) (entered : Entered vol chain name disk)
  (isChain : Chain vol clusters dir chain) (nodup : chain.Nodup)
  (inside : fatAllocClus vol < clusters)
include formatted entered isChain nodup inside

theorem Entered.looked : ∃ (after : List Buf) (result : Option (Option Buf)),
    (∀ slot ∈ after, slot ∈ (sectors vol chain).flatMap slots) ∧
    fatLookup (fatTableWrite (vol.on disk) (fatAllocClus vol) 0xffffff8) dir name =
      result.map (·.elim (.error (-Fs.enoent)) fun slot => .ok (Fat.found slot)) ∧
    result.map (Option.map cut) = lookupLoop name (some [])
      ((((sectors vol chain).flatMap slots).takeWhile used).map cut ++
        bufOf (newDirent name (fatAllocClus vol)) :: after.map cut) := by
  have read := dirSlots_chain (formatted.on disk).write (entered.isChain formatted isChain) nodup
  rw [sectors_marked formatted isChain inside] at read
  obtain ⟨after, isAfter, entries⟩ := entered.entries
  refine ⟨after, lookupLoop name (some []) ((sectors (vol.on disk) chain).flatMap slots), isAfter,
    ?_, ?_⟩
  · rw [fatLookup, read, bind_some]
    congr
    funext result
    cases result <;> rfl
  · rw [← entries, lookupLoop_used, lookupLoop_cut]

variable (string : 0 ∉ name)
include string

/-- The new directory is found at its cluster when `fat_lookup` reaches its entry and takes it for
what it is. -/
theorem Entered.isFound (notDeleted : name.head? ≠ some 0xe5) {rows : List CStr}
    (reached : lookupRows name (some []) (((sectors vol chain).flatMap slots).takeWhile used) =
      some rows) (accepted : rows = [] ∨ joinLfns rows = name) :
    ∃ found, fatLookup (fatTableWrite (vol.on disk) (fatAllocClus vol) 0xffffff8) dir name =
      some (.ok found) ∧ found.inode = fatAllocClus vol := by
  obtain ⟨after, result, -, isLookup, looked⟩ :=
    entered.looked formatted isChain nodup inside
  have found := @lookupLoop_reached name _ (after.map cut) rows ((@kind_newDirent name
      (fatAllocClus vol) string).mpr notDeleted) (accepts_newDirent.mpr accepted) ((((sectors vol
      chain).flatMap slots).takeWhile used).map cut) (some []) (by rw [lookupRows_cut, reached])
  have small := formatted.fatAllocClus_lt
  rw [found] at looked
  rcases result with _ | _ | slot
  · cases looked
  · cases looked
  · refine ⟨Fat.found slot, isLookup, ?_⟩
    rw [map_some, map_some, some.injEq, some.injEq] at looked
    change startCluster slot = _
    rw [← startCluster_cut, looked, startCluster_newDirent, Nat.mod_eq_of_lt small]

/-- Unless another entry has the cluster, only then. -/
theorem Entered.found_iff
    (starts : ∀ slot ∈ (sectors vol chain).flatMap slots, kind slot = .named →
      startCluster slot ≠ fatAllocClus vol) :
    (∃ found, fatLookup (fatTableWrite (vol.on disk) (fatAllocClus vol) 0xffffff8) dir name =
        some (.ok found) ∧ found.inode = fatAllocClus vol) ↔
      name.head? ≠ some 0xe5 ∧ ∃ rows, lookupRows name (some [])
        (((sectors vol chain).flatMap slots).takeWhile used) = some rows ∧
        (rows = [] ∨ joinLfns rows = name) := by
  constructor
  · rintro ⟨found, isFound, isInode⟩
    obtain ⟨after, result, isAfter, isLookup, looked⟩ :=
      entered.looked formatted isChain nodup inside
    rw [isLookup] at isFound
    rcases result with _ | _ | slot
    · cases isFound
    · cases isFound
    · cases isFound
      cases lookupLoop_found _ _ looked.symm with
      | inl isOld =>
        obtain ⟨isMem, isNamed⟩ := isOld
        rw [← List.map_append, List.mem_map] at isMem
        obtain ⟨old, isMem, isCut⟩ := isMem
        rw [← isCut] at isNamed
        have isStart : startCluster old = fatAllocClus vol := by
          rw [← startCluster_cut, isCut]
          exact isInode
        refine absurd isStart (starts old ?_ isNamed)
        cases mem_append.mp isMem with
        | inl isBefore => exact (takeWhile_sublist _).subset isBefore
        | inr isLater => exact isAfter old isLater
      | inr isNew =>
        obtain ⟨isNamed, rows, reached, accepted⟩ := isNew
        rw [lookupRows_cut] at reached
        exact ⟨(kind_newDirent string).mp isNamed, rows, reached, accepts_newDirent.mp accepted⟩
  · rintro ⟨notDeleted, rows, reached, accepted⟩
    exact entered.isFound formatted isChain nodup inside string notDeleted reached accepted

end

section

variable (formatted : Formatted vol clusters) (isChain : Chain vol clusters dir chain)
  (nodup : chain.Nodup) (string : 0 ∉ name)
  (hasRoom : HasRoom vol clusters name ((sectors vol chain).flatMap slots))
include hasRoom

theorem HasRoom.alloc : 2 ≤ fatAllocClus vol ∧ fatAllocClus vol < clusters := by
  obtain ⟨c, two, inside, tried, free⟩ := hasRoom.free
  obtain ⟨allocated, least⟩ := fatAllocClus_le two tried free
  omega

include formatted isChain nodup string

theorem HasRoom.enters : ∃ disk,
    fatMkdir vol dir name = some (fatTableWrite (vol.on disk) (fatAllocClus vol) 0xffffff8) ∧
      Entered vol chain name disk ∧
      ∃ found, fatLookup (fatTableWrite (vol.on disk) (fatAllocClus vol) 0xffffff8) dir name =
        some (.ok found) ∧ found.inode = fatAllocClus vol := by
  obtain ⟨disk, isMade, entered⟩ := fatMkdir_enters formatted isChain nodup string hasRoom.unused
  obtain ⟨rows, reached, accepted⟩ := hasRoom.reached
  exact ⟨disk, isMade, entered, entered.isFound formatted isChain nodup hasRoom.alloc.2 string
    hasRoom.notDeleted reached accepted⟩

end

end Mkdir

theorem forall₂_mem {α β : Type} {R : α → β → Prop} {as : List α} {bs : List β}
    (related : List.Forall₂ R as bs) {a : α} (isMem : a ∈ as) : ∃ b ∈ bs, R a b := by
  obtain ⟨i, inside, rfl⟩ := mem_iff_getElem.mp isMem
  exact ⟨bs.get ⟨i, related.length_eq ▸ inside⟩, get_mem _ _, related.get inside _⟩

section Exclusive

variable {heads : List Nat}

theorem Exclusive.chain_nodup (exclusive : Exclusive vol clusters heads) (isHead : head ∈ heads) :
    ∃ chain, Chain vol clusters head chain ∧ chain.Nodup := by
  obtain ⟨_, areChains, nodup⟩ := exclusive
  obtain ⟨chain, isMem, isChain⟩ := forall₂_mem areChains isHead
  exact ⟨chain, isChain, (nodup_flatten.mp nodup).1 chain isMem⟩

theorem Exclusive.head_apart {first : Nat} (exclusive : Exclusive vol clusters (first :: heads))
    (isHead : dir ∈ heads) :
    2 ≤ first ∧ first < clusters ∧ ∃ others, Chain vol clusters dir others ∧ first ∉ others := by
  obtain ⟨_, areChains, nodup⟩ := exclusive
  cases areChains with
  | cons isFirst areLater =>
    obtain ⟨others, isMem, isChain⟩ := forall₂_mem areLater isHead
    rw [flatten_cons, nodup_append] at nodup
    refine ⟨isFirst.two_le, isFirst.head_lt, others, isChain, ?_⟩
    intro isShared
    exact nodup.2.2 _ isFirst.head_mem _ (mem_flatten_of_mem isMem isShared) rfl

section

variable (formatted : Formatted vol clusters) (isChain : Chain vol clusters dir chain)
  (nodup : chain.Nodup)
include formatted isChain nodup

theorem MadeDir.room (isHead : dir ∈ heads) (string : 0 ∉ name)
    (isMade : fatMkdir vol dir name = some made) (madeDir : MadeDir vol clusters heads dir name made) :
    2 ≤ unusedCnt ((sectors vol chain).flatMap slots) := by
  by_contra crowded
  obtain ⟨x, notMember, isAlloc, extended⟩ :=
    fatMkdir_extends formatted isChain nodup string (Nat.lt_of_not_le crowded) isMade
  by_cases hasFree : HasFree vol clusters
  · obtain ⟨_, inside, _, isOthers, apart⟩ := (madeDir.exclusive hasFree).head_apart isHead
    rw [isAlloc (by omega) inside] at extended
    exact apart (extended isOthers)
  · refine notMember (extended (isChain.congr fun c isMem => ?_))
    exact madeDir.table hasFree c (isChain.member c isMem).2.1

theorem MadeDir.hasFree (entered : Entered vol chain name disk) (madeDir : MadeDir vol clusters heads dir name
      (fatTableWrite (vol.on disk) (fatAllocClus vol) 0xffffff8)) : HasFree vol clusters := by
  by_contra noFree
  have same := madeDir.directory noFree
  rw [dirSlots_chain formatted isChain nodup,
    dirSlots_chain (formatted.on disk).write (entered.isChain formatted isChain) nodup,
    some.injEq] at same
  have fewer := entered.unused
  have most := @unusedCnt_marked (fatAllocClus vol) (vol.on disk) chain
  rw [same] at most
  omega

end

theorem Exclusive.start_ne (exclusive : Exclusive vol clusters heads) (allocated : fatAllocClus vol ≠ 0)
    (starts : startCluster slot ∈ heads ∨ startCluster slot = 0) :
    startCluster slot ≠ fatAllocClus vol := by
  intro isAlloc
  cases starts with
  | inr isZero => exact allocated (isAlloc ▸ isZero)
  | inl isHead =>
    obtain ⟨_, isOthers, -⟩ := exclusive.chain_nodup isHead
    exact isOthers.alloc_not_mem (isAlloc ▸ isOthers.head_mem)

theorem Entered.exclusive (formatted : Formatted vol clusters)
    (entered : Entered vol chain name disk) (exclusive : Exclusive vol clusters heads)
    (two : 2 ≤ fatAllocClus vol) (inside : fatAllocClus vol < clusters) :
    Exclusive (fatTableWrite (vol.on disk) (fatAllocClus vol) 0xffffff8) clusters
      (fatAllocClus vol :: heads) := by
  obtain ⟨chains, areChains, nodup⟩ := exclusive
  refine ⟨[fatAllocClus vol] :: chains, .cons ?_ ?_, ?_⟩
  · have isEnd : fatTableRead (fatTableWrite (vol.on disk) (fatAllocClus vol) 0xffffff8)
        (fatAllocClus vol) = 0xffffff8 := fatTableRead_write (by decide)
    exact .last two inside (le_of_le_of_eq (by decide) (congrArg (· % 2 ^ 28) isEnd.symm))
  · exact areChains.imp fun _ _ isChain => entered.isChain formatted isChain
  · rw [flatten_cons, singleton_append, nodup_cons]
    refine ⟨?_, nodup⟩
    intro isMem
    obtain ⟨_, isChains, isShared⟩ := mem_flatten.mp isMem
    obtain ⟨_, -, isChain⟩ := forall₂_mem areChains.flip isChains
    exact isChain.alloc_not_mem isShared

end Exclusive

/-- For every volume whose chains have nothing in common, and every directory of it whose entries
are in some of them, `fat_mkdir` does what it ought to exactly when there is room. -/
theorem mkdir_exclusive_iff (vol : Volume) (clusters : Nat) (heads : List Nat) (dir : Nat) (name : CStr)
    (directory : List Buf) (formatted : Formatted vol clusters) (exclusive : Exclusive vol clusters heads)
    (isHead : dir ∈ heads) (read : dirSlots vol dir = some directory)
    (starts : ∀ slot ∈ directory, kind slot = .named → startCluster slot ∈ heads ∨ startCluster slot = 0)
    (string : 0 ∉ name) :
    MakesDir vol clusters heads dir name ↔ HasRoom vol clusters name directory := by
  obtain ⟨chain, isChain, nodup⟩ := exclusive.chain_nodup isHead
  have isRead := dirSlots_chain formatted isChain nodup
  rw [read, some.injEq] at isRead
  subst isRead
  constructor
  · rintro ⟨_, isMade, madeDir⟩
    have room := madeDir.room formatted isChain nodup isHead string isMade
    obtain ⟨disk, isMade', entered⟩ := fatMkdir_enters formatted isChain nodup string room
    rw [isMade, some.injEq] at isMade'
    subst isMade'
    have hasFree := madeDir.hasFree formatted isChain nodup entered
    obtain ⟨two, inside, -⟩ := (madeDir.exclusive hasFree).head_apart isHead
    obtain ⟨-, tried, free⟩ := (fatAllocClus_cases vol).resolve_left (by omega)
    have apart : ∀ slot ∈ (sectors vol chain).flatMap slots, kind slot = .named →
        startCluster slot ≠ fatAllocClus vol := fun slot isMember isNamed =>
      exclusive.start_ne (by omega) (starts slot isMember isNamed)
    obtain ⟨notDeleted, reached⟩ := (entered.found_iff formatted isChain nodup inside string
      apart).mp (madeDir.found hasFree)
    exact ⟨⟨_, two, inside, tried, free⟩, room, notDeleted, reached⟩
  · intro hasRoom
    obtain ⟨c, two, inside, _, free⟩ := hasRoom.free
    have hasFree : HasFree vol clusters := ⟨c, two, inside, free⟩
    obtain ⟨two, inside⟩ := hasRoom.alloc
    obtain ⟨disk, isMade, entered, found⟩ := hasRoom.enters formatted isChain nodup string
    exact ⟨_, isMade, fun _ => entered.exclusive formatted exclusive two inside, fun _ => found,
      fun noFree => absurd hasFree noFree, fun noFree => absurd hasFree noFree⟩

section OneDirectory

variable (directory : List (List UInt8))

theorem oneDirectory_formatted : Formatted (oneDirectory directory) 64 := by
  constructor <;> simp [oneDirectory, dataStart]

theorem oneDirectory_chain : Chain (oneDirectory directory) 64 2 [2] := by
  refine .last (by decide) (by decide) ?_
  change 0xffffff8 ≤
    le32 (bufOf (bytes32 0xffffff8 ++ bytes32 0xffffff8 ++ bytes32 0xffffff8)) 8 % 2 ^ 28
  decide

theorem oneDirectory_exclusive : Exclusive (oneDirectory directory) 64 [2] :=
  ⟨[[2]], .cons (oneDirectory_chain directory) .nil, by decide⟩

end OneDirectory

/-- A directory `SUB` in an empty one. -/
theorem mkdir_exclusive_empty : MakesDir (oneDirectory []) 64 [2] 2 [0x53, 0x55, 0x42] := by
  refine (mkdir_exclusive_iff _ 64 [2] 2 _ _ (oneDirectory_formatted []) (oneDirectory_exclusive [])
    (by decide) (oneDirectory_slots []) (by decide +kernel) (by decide)).mpr ⟨?_, ?_, by decide, ?_⟩
  · exact ⟨3, by decide, by decide, by decide, by decide⟩
  · decide +kernel
  · exact ⟨[], by decide +kernel, .inl rfl⟩

def fifteenFiles : List (List UInt8) :=
  (List.range 15).map fun i =>
    shortEntry (UInt8.ofNat (0x41 + i) :: List.replicate 7 0x20) (List.replicate 3 0x20) 0x20 0

/-- One unused entry is not enough: the entry of zeros behind the new one is put in a cluster that
is hung on to the directory, and it is the cluster of the new directory. -/
theorem mkdir_shares_cluster : Formatted (oneDirectory fifteenFiles) 64 ∧
    Exclusive (oneDirectory fifteenFiles) 64 [2] ∧
    ¬ MakesDir (oneDirectory fifteenFiles) 64 [2] 2 [0x53, 0x55, 0x42] := by
  refine ⟨oneDirectory_formatted _, oneDirectory_exclusive _, ?_⟩
  rintro ⟨_, isMade, madeDir⟩
  have room := madeDir.room (oneDirectory_formatted _) (oneDirectory_chain _) (by decide) (by decide)
    (by decide) isMade
  revert room
  decide +kernel

end Micro.Fat
