import Micro.Lib.CString
import Micro.Fs.Disks

/-!
# Initial ramdisk images

`mkinitrd` writes an image: for each file a header with its name and its size, and then its
contents.  The kernel finds a file by walking from header to header, with nothing but the sizes
to tell where the next one is and the end of the image to tell that there is none.
-/

namespace Micro.Fs

open Kern Lib List Option

namespace Initrd

/-! ## The source -/

/-- The header `mkinitrd` writes; a name that does not fit is copied past its field. -/
def fheader (name : CStr) (size : Nat) : Option (List UInt8) := do
  let field ← strcpy 128 (fun _ => 0) 0 name
  return slice field 0 128 ++ bytes64 size

/-- `mkinitrd`: the image of the files, each with a name and its contents -/
def mkinitrd : List (CStr × List UInt8) → Option (List UInt8)
  | [] => some []
  | (dst, data) :: files => do
      let hdr ← fheader dst data.length
      return hdr ++ data ++ (← mkinitrd files)

/-- `strncmp` of two strings at least as long as the count; `char` is signed. -/
def strncmp : CStr → CStr → Nat → Int
  | c :: s1, d :: s2, n + 1 =>
      if c ≠ d then c.toInt8.toInt - d.toInt8.toInt else strncmp s1 s2 n
  | _, _, _ => 0

def strcmp (s1 s2 : CStr) : Int :=
  if s1.length ≠ s2.length then 1 else strncmp s1 s2 s1.length

end Initrd

/-- `struct initrd`: an image in memory, from `start` up to `end`. -/
structure Initrd where
  start : Nat
  image : List UInt8

namespace Initrd

variable (initrd : Initrd)

def end_ : Nat := initrd.start + initrd.image.length

/-- The bytes of the image by their addresses. -/
def mem : Buf := fun addr => initrd.image.getD (addr - initrd.start) 0

/-- `curr->name`; none if its bytes up to a zero are not all in the image -/
def name (curr : Nat) : Option CStr :=
  if initrd.start ≤ curr then readString initrd.end_ initrd.mem curr else none

def size (curr : Nat) : Option Nat :=
  if initrd.start ≤ curr ∧ curr + 136 ≤ initrd.end_ then some (le64 initrd.mem (curr + 128))
  else none

/-- What `initramfs_lookup` assigns to the new inode and its `priv`, and to `dentry->name`. -/
structure Found where
  mode : Nat
  size : Nat
  start : Nat
  name : Buf

/-- The loop of `initramfs_lookup`, given what is in `dentry->name` before.  It fails when it
reads outside of the image or writes outside of the name. -/
def lookupFrom (dentry : Buf) (name : CStr) : (fuel curr : Nat) → Option (Except Int Found)
  | 0, _ => none
  | fuel + 1, curr =>
      if curr < initrd.end_ then do
        let entry ← initrd.name curr
        let size ← initrd.size curr
        if strcmp entry name = 0 then
          return .ok
            { mode := 0x8000 ||| 0o555
              size
              start := addWord curr 136
              name := ← strcpy 256 dentry 0 name }
        else lookupFrom dentry name fuel (addWord (addWord curr 136) size)
      else some (.error (-enoent))

def initramfsLookup (dentry : Buf) (name : CStr) (fuel : Nat) : Option (Except Int Found) :=
  initrd.lookupFrom dentry name fuel initrd.start

/-! ## Comparing names -/

theorem strncmp_eq_zero {s1 s2 : CStr} (length : s1.length = s2.length) :
    (strncmp s1 s2 s1.length = 0 ↔ s1 = s2) := by
  induction s1 generalizing s2 with
  | nil =>
    rw [length_eq_zero_iff.mp length.symm]
    simp [strncmp]
  | cons c s1 ih =>
    cases s2 with
    | nil => cases length
    | cons d s2 =>
      rw [length_cons, strncmp]
      by_cases same : c = d
      · subst same
        rw [if_neg (not_not.mpr rfl), ih (Nat.succ.inj length)]
        simp
      · have differ : c.toInt8.toInt - d.toInt8.toInt ≠ 0 := by
          intro zero
          have sameChar := Int8.toInt_inj.mp (Int.sub_eq_zero.mp zero)
          exact same (congrArg Int8.toUInt8 sameChar)
        simp [differ, same]

theorem strcmp_eq_zero (s1 s2 : CStr) : strcmp s1 s2 = 0 ↔ s1 = s2 := by
  unfold strcmp
  by_cases length : s1.length = s2.length
  · rw [if_neg (not_not.mpr length)]
    exact strncmp_eq_zero length
  · rw [if_pos length]
    constructor
    · intro one
      cases one
    · intro same
      exact absurd (congrArg List.length same) length

/-! ## The layout -/

/-- Files stand one behind the other from a position to the end. -/
def Packed (mem : Buf) (last : Nat) : (pos : Nat) → List (CStr × List UInt8) → Prop
  | pos, [] => pos = last
  | pos, (name, data) :: files =>
      StringAt (pos + 128) mem pos name ∧
        slice mem (pos + 128) 8 = bytes64 data.length ∧
        slice mem (pos + 136) data.length = data ∧
        Packed mem last (pos + 136 + data.length) files

theorem Packed.le {mem : Buf} {last : Nat} {files : List (CStr × List UInt8)} {pos : Nat}
    (packed : Packed mem last pos files) : pos ≤ last := by
  induction files generalizing pos with
  | nil => exact Nat.le_of_eq packed
  | cons _ files ih =>
    have rest := ih packed.2.2.2
    omega

/-- A name that `mkinitrd` has room for. -/
def ShortName (name : CStr) : Prop := 0 ∉ name ∧ name.length ≤ 127

theorem fheader_some {name : CStr} (short : ShortName name) (size : Nat) :
    ∃ field, fheader name size = some (slice field 0 128 ++ bytes64 size) ∧
      StringAt 128 field 0 name := by
  rcases @strcpy_some 128 0 (fun _ => 0) name short.1 (by have := short.2; omega) with
    ⟨field, copied, holds, _⟩
  refine ⟨field, ?_, holds⟩
  rw [fheader, copied]
  rfl

theorem mkinitrd_some {files : List (CStr × List UInt8)}
    (short : ∀ file ∈ files, ShortName file.1) : ∃ image, mkinitrd files = some image := by
  induction files with
  | nil => exact ⟨[], rfl⟩
  | cons file files ih =>
    rcases forall_mem_cons.mp short with ⟨shortFirst, shortRest⟩
    rcases fheader_some shortFirst file.2.length with ⟨field, made, _⟩
    rcases ih shortRest with ⟨image, packed⟩
    refine ⟨slice field 0 128 ++ bytes64 file.2.length ++ file.2 ++ image, ?_⟩
    simp only [mkinitrd, made, packed]
    rfl

theorem slice_mem (start : Nat) (before part after : List UInt8) :
    slice (mem ⟨start, before ++ (part ++ after)⟩) (start + before.length) part.length = part := by
  apply ext_getElem?
  intro i
  by_cases inside : i < part.length
  · have isByte : (before ++ (part ++ after))[before.length + i]? = some part[i] := by
      simp [getElem?_append, inside]
    have isPos : start + before.length + i - start = before.length + i := by omega
    rw [getElem?_slice inside, getElem?_eq_getElem inside, mem, isPos, List.getD, isByte]
    rfl
  · rw [getElem?_eq_none (by simpa using inside), getElem?_eq_none (by omega)]

/-- `mkinitrd` lays out the files one behind the other. -/
theorem mkinitrd_packed (start : Nat) {files : List (CStr × List UInt8)} {image before : List UInt8}
    (short : ∀ file ∈ files, ShortName file.1) (packs : mkinitrd files = some image) :
    Packed (mem ⟨start, before ++ image⟩) (start + (before ++ image).length)
      (start + before.length) files := by
  induction files generalizing image before with
  | nil =>
    cases packs
    rw [append_nil]
    rfl
  | cons file files ih =>
    rcases file with ⟨name, data⟩
    rcases forall_mem_cons.mp short with ⟨shortFirst, shortRest⟩
    rcases fheader_some shortFirst data.length with ⟨field, made, holds⟩
    rcases mkinitrd_some shortRest with ⟨rest, packsRest⟩
    have isImage : image = slice field 0 128 ++ (bytes64 data.length ++ (data ++ rest)) := by
      simp only [mkinitrd, made, packsRest] at packs
      rw [← some.inj packs]
      simp
    subst isImage
    have nameField := slice_mem start before (slice field 0 128)
      (bytes64 data.length ++ (data ++ rest))
    have sizeField := slice_mem start (before ++ slice field 0 128) (bytes64 data.length)
      (data ++ rest)
    have contents := slice_mem start (before ++ slice field 0 128 ++ bytes64 data.length) data rest
    have behind := @ih rest (before ++ slice field 0 128 ++ bytes64 data.length ++ data) shortRest
      packsRest
    simp only [append_assoc, length_append, length_slice] at nameField sizeField contents behind ⊢
    have shortLength : name.length ≤ 127 := shortFirst.2
    refine ⟨?_, ?_, ?_, ?_⟩
    · apply StringAt.of_slice
      · rw [← take_slice (show name.length + 1 ≤ 128 by omega), nameField, take_slice (by omega)]
        exact holds.slice_eq
      · exact shortFirst.1
      · omega
    · exact sizeField
    · exact contents
    · have isPos : start + before.length + 136 + data.length =
          start + (before.length + (128 + (8 + data.length))) := by omega
      rw [isPos]
      exact behind

/-! ## Looking up a name -/

/-- What `initramfs_lookup` finds for a file with these contents: its size is theirs, and the
bytes at its start, inside of the image, are they. -/
structure Describes (found : Found) (name : CStr) (data : List UInt8) : Prop where
  mode : found.mode = 0x816d
  size : found.size = data.length
  inside : initrd.start ≤ found.start ∧ found.start + found.size ≤ initrd.end_
  contents : slice initrd.mem found.start found.size = data
  name : StringAt 256 found.name 0 name

section Lookup

variable {initrd : Initrd} {dentry : Buf} {name : CStr}

/-- The walk lands on every header, and ends at the end of the image. -/
theorem lookupFrom_find (bounded : initrd.end_ < 2 ^ 64) {files : List (CStr × List UInt8)}
    {fuel curr : Nat} (packed : Packed initrd.mem initrd.end_ curr files)
    (after : initrd.start ≤ curr) (enough : files.length < fuel) :
    match files.find? fun file => file.1 = name with
      | none => initrd.lookupFrom dentry name fuel curr = some (.error (-enoent))
      | some file => ∃ found, initrd.lookupFrom dentry name fuel curr = some (.ok found) ∧
          initrd.Describes found name file.2 := by
  induction files generalizing fuel curr with
  | nil =>
    cases fuel with
    | zero => cases enough
    | succ fuel =>
      have atEnd : ¬ curr < initrd.end_ := Nat.not_lt.mpr (Nat.le_of_eq packed.symm)
      rw [lookupFrom, if_neg atEnd]
      rfl
  | cons file files ih =>
    rcases file with ⟨entry, data⟩
    cases fuel with
    | zero => cases enough
    | succ fuel =>
      rcases packed with ⟨isName, isSize, isData, rest⟩
      have behind := rest.le
      have reads : initrd.name curr = some entry := by
        rw [Initrd.name, if_pos after]
        exact (isName.mono (by omega)).readString_eq
      have sizes : initrd.size curr = some data.length := by
        rw [Initrd.size, if_pos ⟨after, by omega⟩, le64_of_slice isSize, Nat.mod_eq_of_lt]
        omega
      have first : addWord curr 136 = curr + 136 := addWord_of_lt (by omega)
      have next : addWord (addWord curr 136) data.length = curr + 136 + data.length := by
        rw [first]
        exact addWord_of_lt (by omega)
      rw [lookupFrom, if_pos (by omega), reads, sizes]
      simp only [bind_eq_bind, bind_some, strcmp_eq_zero, find?_cons]
      by_cases same : entry = name
      · subst same
        have length := isName.inside
        rcases @strcpy_some 256 0 dentry entry isName.plain (by omega) with ⟨_, copied, isCopy, _⟩
        rw [copied]
        simp only
        refine ⟨_, rfl, rfl, rfl, ?_, ?_, isCopy⟩
        · rw [first]
          exact ⟨Nat.le_add_right_of_le after, behind⟩
        · rw [first]
          exact isData
      · rw [if_neg same, next]
        simp only [decide_eq_false same]
        exact ih rest (by omega) (Nat.lt_of_succ_lt_succ enough)

/-- The walk over the bytes finds what the driver finds in the list of its files. -/
theorem lookupFrom_disks (bounded : initrd.end_ < 2 ^ 64) {files : List (CStr × List UInt8)}
    {fuel : Nat} (packed : Packed initrd.mem initrd.end_ initrd.start files)
    (enough : files.length < fuel) {disks : Disks} {dir : Inode}
    (isImage : disks.images dir.priv = some (files.map fun file => (file.1, file.2.length))) :
    disks.initramfsLookup dir name =
      (initrd.initramfsLookup dentry name fuel).map fun result => result.map fun found =>
        { disks.scrap with
          mode := found.mode, size := found.size
          fops := { disks.scrap.fops with read := some initramfsFn } } := by
  have search := @lookupFrom_find initrd dentry name bounded files fuel _ packed le_rfl enough
  rw [Disks.initramfsLookup, isImage, map_some, find?_map, Function.comp_def, initramfsLookup]
  cases isFound : files.find? fun file => file.1 = name with
  | none =>
    rw [isFound] at search
    rw [search]
    rfl
  | some file =>
    rw [isFound] at search
    rcases search with ⟨found, called, describes⟩
    rw [called]
    simp only [map_some, Except.map, describes.mode, describes.size]

end Lookup

/-- Every file that `mkinitrd` packed is found in the image with its size and its contents, and no
other name is, without a read outside of the image. -/
theorem initrd_round_trip (files : List (CStr × List UInt8))
    (short : ∀ file ∈ files, ShortName file.1) (distinct : (files.map Prod.fst).Nodup) :
    ∃ image, mkinitrd files = some image ∧ ∀ start, start + image.length < 2 ^ 64 →
      ∀ dentry fuel, files.length < fuel →
        (∀ name data, (name, data) ∈ files → ∃ found,
          initramfsLookup ⟨start, image⟩ dentry name fuel = some (.ok found) ∧
            Describes ⟨start, image⟩ found name data) ∧
        ∀ name, 0 ∉ name → name ∉ files.map Prod.fst →
          initramfsLookup ⟨start, image⟩ dentry name fuel = some (.error (-enoent)) := by
  rcases mkinitrd_some short with ⟨image, packs⟩
  refine ⟨image, packs, fun start bounded dentry fuel enough => ?_⟩
  have packed := @mkinitrd_packed start files image [] short packs
  have finds : ∀ name, _ := fun name =>
    @lookupFrom_find ⟨start, image⟩ dentry name bounded files fuel start packed le_rfl enough
  constructor
  · intro name data member
    have search := finds name
    cases isFound : files.find? fun file => file.1 = name with
    | none =>
      have differs := find?_eq_none.mp isFound (name, data) member
      simp at differs
    | some file =>
      have sameName : file.1 = name := by simpa using find?_some isFound
      have isFile : file = (name, data) :=
        inj_on_of_nodup_map distinct (mem_of_find?_eq_some isFound) member sameName
      rw [isFound, isFile] at search
      exact search
  · intro name _ absent
    have search := finds name
    have isNone : (files.find? fun file => file.1 = name) = none := by
      apply find?_eq_none.mpr
      intro file member same
      exact absent (mem_map.mpr ⟨file, member, of_decide_eq_true same⟩)
    rw [isNone] at search
    exact search

/-- An image of an empty file and a file of one byte. -/
theorem initrd_round_trip_two :
    ∃ image found, mkinitrd [([97], []), ([98], [7])] = some image ∧
      initramfsLookup ⟨0x1000, image⟩ (fun _ => 1) [98] 3 = some (.ok found) ∧
      Describes ⟨0x1000, image⟩ found [98] [7] ∧
      initramfsLookup ⟨0x1000, image⟩ (fun _ => 1) [99] 3 = some (.error (-enoent)) := by
  have short : ∀ file ∈ [(([97] : CStr), ([] : List UInt8)), ([98], [7])], ShortName file.1 := by
    simp [ShortName]
  rcases initrd_round_trip [([97], []), ([98], [7])] short (by decide) with ⟨image, packs, finds⟩
  have length : ((mkinitrd [([97], []), ([98], [7])]).map length) = some 273 := by
    decide +kernel
  rw [packs] at length
  have isLength : image.length = 273 := some.inj length
  rcases finds 0x1000 (by omega) (fun _ => 1) 3 (by decide) with ⟨present, absent⟩
  rcases present [98] [7] (by decide) with ⟨found, called, describes⟩
  exact ⟨image, found, packs, called, describes, absent [99] (by decide) (by decide)⟩

/-! ## Reading a file -/

section Read

variable (found : Found) (sizes : Nat → Nat)

/-- `initramfs_read`: the bytes it copies and what it returns -/
def initramfsRead (off size : Nat) : List UInt8 × Nat :=
  (slice initrd.mem (addWord found.start off) size, size)

/-- `file->off` after so many calls of `vfs_read` on a fresh descriptor, with buffers of these
sizes. -/
def offset : (calls : Nat) → Nat
  | 0 => 0
  | calls + 1 =>
      addWord (offset calls) (initrd.initramfsRead found (offset calls) (sizes calls)).2

/-- What a call of `vfs_read` delivers and returns. -/
def vfsRead (call : Nat) : List UInt8 × Nat :=
  initrd.initramfsRead found (initrd.offset found sizes call) (sizes call)

/-- The first calls deliver the contents, one piece each, and all others return 0. -/
def ReadsToEnd (contents : List UInt8) : Prop :=
  ∃ calls, ((range calls).flatMap fun call => (initrd.vfsRead found sizes call).1) = contents ∧
    ∀ call, calls ≤ call → (initrd.vfsRead found sizes call).2 = 0

end Read

/-- `initramfs_read` does not look at the size of the file: there is no end of a file, and what
stands behind it in the image and in memory is delivered. -/
theorem reads_never_end (initrd : Initrd) (found : Found) (sizes : Nat → Nat)
    (contents : List UInt8) (positive : ∀ call, 1 ≤ sizes call) :
    ¬ initrd.ReadsToEnd found sizes contents := by
  rintro ⟨calls, _, ended⟩
  have isZero : sizes calls = 0 := ended calls le_rfl
  exact Nat.one_le_iff_ne_zero.mp (positive calls) isZero

/-- A file of one byte, read with a buffer of 512 bytes. -/
theorem reads_never_end_block : (∀ call, 1 ≤ (fun _ => 512 : Nat → Nat) call) ∧
    ¬ ReadsToEnd ⟨0x1000, replicate 136 0 ++ [120]⟩ ⟨0x816d, 1, 0x1088, fun _ => 0⟩ (fun _ => 512)
      [120] :=
  ⟨by simp, reads_never_end _ _ _ _ (by simp)⟩

/-- A file of one byte, packed, found and read byte by byte. -/
theorem one_byte_not_readsToEnd : ∃ image found, mkinitrd [([97], [120])] = some image ∧
    initramfsLookup ⟨0x1000, image⟩ (fun _ => 0) [97] 2 = some (.ok found) ∧
    ¬ ReadsToEnd ⟨0x1000, image⟩ found (fun _ => 1) [120] := by
  have short : ∀ file ∈ [(([97] : CStr), ([120] : List UInt8))], ShortName file.1 := by
    simp [ShortName]
  rcases mkinitrd_some short with ⟨image, packs⟩
  have length : (mkinitrd [([97], [120])]).map length = some 137 := by decide +kernel
  rw [packs] at length
  have isLength : image.length = 137 := some.inj length
  have packed := @mkinitrd_packed 0x1000 _ image [] short packs
  have bounded : Initrd.end_ ⟨0x1000, image⟩ < 2 ^ 64 := by
    rw [Initrd.end_, isLength]
    exact (by decide : 0x1000 + 137 < 2 ^ 64)
  rcases @lookupFrom_find _ (fun _ => 0) [97] bounded _ 2 _ packed le_rfl (by decide) with
    ⟨found, called, _⟩
  refine ⟨image, found, packs, called, ?_⟩
  rintro ⟨calls, _, ended⟩
  exact Nat.one_ne_zero (ended calls le_rfl)

end Initrd

end Micro.Fs
