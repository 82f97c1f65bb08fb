import Micro.Ext2.Tree
import Micro.Fs.Effects

/-!
# The drivers of ext2, devfs and the initial ramdisk

The operations on directories that these drivers have, as a machine.  A function pointer
stands for a driver: which of its operations is meant follows from the slot the pointer is
in.  The state is `none` once a driver has followed a pointer that leads nowhere or has
written where it should not, and stays so: nothing is known of the file systems then.
-/

namespace Micro.Fs

open Kern Ext2 Option

def ext2Fn : FnPtr := 1
def devfsFn : FnPtr := 2
def initramfsFn : FnPtr := 3

/-! ## Inodes -/

def ext2Iops : InodeOps :=
  { lookup := some ext2Fn, mknod := some ext2Fn, mkdir := some ext2Fn, getdents := some ext2Fn
    unlink := some ext2Fn, readlink := some ext2Fn, symlink := some ext2Fn, link := some ext2Fn }

def ext2Fops : FileOps :=
  { read := some ext2Fn, write := some ext2Fn, chmod := some ext2Fn, chown := some ext2Fn }

def inode2file (vol num : Nat) (node : Ext2.Node) : Inode :=
  { mode := node.mode, uid := node.uid, gid := node.gid, inode := num, priv := vol
    ops := ext2Iops, fops := ext2Fops }

/-- What `devfs_register` is given. -/
structure Device where
  name : CStr
  fops : FileOps
  mode : Nat
  priv : Nat

def Device.inode (device : Device) : Inode :=
  { fops := device.fops, mode := device.mode, priv := device.priv }

def devfsRoot : Inode :=
  { mode := 0x41ed, ops := { lookup := some devfsFn, getdents := some devfsFn } }

def initramfsRoot (image : Nat) : Inode :=
  { mode := 0x41ed, priv := image, ops := { lookup := some initramfsFn } }

/-! ## The state of the drivers -/

/-- The volumes and images by address, with the name and size of each file of an image. -/
structure Disks where
  trees : Nat → Option Tree
  devices : List Device
  images : Nat → Option (List (CStr × Nat))
  /-- What `kmalloc` leaves in an inode, with the `priv` that `initramfs_lookup` sets; it sets
  some other fields as well, but not the operations. -/
  scrap : Inode

namespace Disks

variable (disks : Disks)

/-- The tree of a volume is replaced. -/
def setTree (vol : Nat) (tree : Tree) : Disks :=
  { disks with trees := Function.update disks.trees vol (some tree) }

def ext2Lookup (dir : Inode) (name : CStr) : Option (Except Int Inode) :=
  (disks.trees dir.priv).bind fun tree =>
    (tree.lookup dir.inode name).map fun result =>
      result.map fun found => inode2file dir.priv found.1 found.2

def devfsLookup (name : CStr) : Except Int Inode :=
  match disks.devices.find? fun device => device.name = name with
  | some device => .ok device.inode
  | none => .error (-enoent)

def initramfsLookup (dir : Inode) (name : CStr) : Option (Except Int Inode) :=
  (disks.images dir.priv).map fun files =>
    match files.find? fun file => file.1 = name with
    | some file =>
        .ok { disks.scrap with
          mode := 0x816d, size := file.2
          fops := { disks.scrap.fops with read := some initramfsFn } }
    | none => .error (-enoent)

/-- A call of a `lookup` pointer. -/
def lookup (op : FnPtr) (dir : Inode) (name : CStr) : Option (Except Int Inode) :=
  if op = ext2Fn then disks.ext2Lookup dir name
  else if op = devfsFn then some (disks.devfsLookup name)
  else if op = initramfsFn then disks.initramfsLookup dir name
  else none

/-- What lookups give: an inode of ext2, a device, a file of an image, or that there is no such
name. -/
inductive Answer : Except Int Inode → Prop where
  | ext2 (vol num : Nat) (node : Ext2.Node) : Answer (.ok (inode2file vol num node))
  | device (device : Device) : Answer (.ok device.inode)
  | file {child : Inode} : sIsdir child.mode = false → Answer (.ok child)
  | missing : Answer (.error (-enoent))

theorem lookup_answer {disks : Disks} {op : FnPtr} {dir : Inode} {name : CStr}
    {result : Except Int Inode} (looked : disks.lookup op dir name = some result) :
    Answer result := by
  simp only [lookup] at looked
  split at looked
  · obtain ⟨_, _, mapped⟩ := bind_eq_some_iff.mp looked
    obtain ⟨_, answered, isResult⟩ := map_eq_some_iff.mp mapped
    obtain ⟨_, _, found⟩ := bind_eq_some_iff.mp answered
    subst isResult
    split at found
    · obtain ⟨_, _, isAnswer⟩ := map_eq_some_iff.mp found
      subst isAnswer
      exact .ext2 _ _ _
    · cases found
      exact .missing
  split at looked
  · cases looked
    simp only [devfsLookup]
    split
    · exact .device _
    · exact .missing
  split at looked
  · obtain ⟨_, _, isResult⟩ := map_eq_some_iff.mp looked
    subst isResult
    split
    · exact .file (by simp [sIsdir])
    · exact .missing
  · cases looked

end Disks

/-- A call of a pointer that changes a volume; only ext2 has them. -/
def ext2Op (op : FnPtr) (dev : Option Disks) (vol : Nat) (change : Tree → Option (Tree × Int)) :
    Option Disks × Int :=
  match dev.bind fun disks =>
      if op = ext2Fn then
        (disks.trees vol).bind fun tree =>
          (change tree).map fun done => (disks.setTree vol done.1, done.2)
      else none with
  | some (disks, r) => (some disks, r)
  | none => (none, 0)

/-- What the `open` operations of devices do. -/
abbrev Opens := FnPtr → Inode → File → Int × Inode × FileOps

/-- The machine of the drivers.  What the `open` operation of a device returns is given. -/
def drivers (opens : Opens) : DirMachine (Option Disks) where
  __ := Machine.idle _
  lookup := fun op dev dir name =>
    match dev.bind fun disks => disks.lookup op dir name with
    | some (.ok inode) => (dev, 0, inode)
    | some (.error e) => (dev, e, {})
    | none => (none, 0, {})
  mknod := fun op dev dir name mode _ uid gid =>
    ext2Op op dev dir.priv fun tree => (tree.mknod dir.inode name mode uid gid).map (·, 0)
  readlink := fun op dev inode n =>
    match dev.bind fun disks =>
        if op = ext2Fn then
          (disks.trees inode.priv).bind fun tree => tree.readlink inode.inode inode.mode n
        else none with
    | some (.ok bytes) => (dev, bytes.length, bytes)
    | some (.error e) => (dev, e, [])
    | none => (none, 0, [])
  openFile := fun op dev inode file => (dev, opens op inode file)
  mkdir := fun op dev dir name mode uid gid =>
    ext2Op op dev dir.priv fun tree => (tree.mkdir dir.inode name mode uid gid).map (·, 0)
  unlink := fun op dev dir name => ext2Op op dev dir.priv fun tree => tree.unlink dir.inode name
  symlink := fun op dev file target =>
    ext2Op op dev file.priv fun tree => (tree.symlink file.inode target).map (·, 0)
  link := fun op dev file name dir =>
    ext2Op op dev dir.priv fun tree =>
      (tree.link file.inode file.mode name dir.inode).map (·, 0)

section Effects

variable {opens : Opens} {dev : Option Disks}

section

variable {P : Option Disks → Prop} (holds : P dev) (lost : P none)
include holds lost

theorem drivers_lookup_holds (op : FnPtr) (dir : Inode) (name : CStr) :
    P ((drivers opens).lookup op dev dir name).1 := by
  simp only [drivers]
  split
  · exact holds
  · exact holds
  · exact lost

theorem drivers_readlink_holds (op : FnPtr) (inode : Inode) (n : Nat) :
    P ((drivers opens).readlink op dev inode n).1 := by
  simp only [drivers]
  split
  · exact holds
  · exact holds
  · exact lost

end

theorem ext2Op_some {op : FnPtr} {vol : Nat} {change : Tree → Option (Tree × Int)} {after : Disks}
    {r : Int} (acted : ext2Op op dev vol change = (some after, r)) :
    ∃ disks tree next, dev = some disks ∧ op = ext2Fn ∧ disks.trees vol = some tree ∧
      change tree = some (next, r) ∧ after = disks.setTree vol next := by
  simp only [ext2Op] at acted
  split at acted
  · rename_i changed
    cases acted
    obtain ⟨disks, isDisks, rest⟩ := bind_eq_some_iff.mp changed
    split at rest
    · rename_i isOp
      obtain ⟨tree, isTree, rest⟩ := bind_eq_some_iff.mp rest
      obtain ⟨_, isDone, same⟩ := map_eq_some_iff.mp rest
      cases same
      exact ⟨disks, tree, _, isDisks, isOp, isTree, isDone, rfl⟩
    · cases rest
  · cases acted

end Effects

end Micro.Fs
