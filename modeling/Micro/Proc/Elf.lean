import Micro.Mm.Memory
import Micro.Mm.VmMap

/-!
# Executable images

The parts of `binfmt.c` that read an ELF image from a kernel buffer: the validity
check, loading the segments into an address space, and the initial user stack.
Kernel addresses are mapped in every address space, so the buffer is read under
the map that is being filled.
-/

namespace Micro.Proc

open Kern Mm Lib

variable {σ : Type}

/-- `elf_valid`; `none` when reading the header faults. -/
def elfValid (machine : Machine σ) (dev : σ) (map : VmMap) (data : Nat) : Option Bool := do
  let ident ← (List.range 7).mapM fun i => machine.load dev map (addWord data i)
  let kind ← loadWord machine dev map (addWord data 18) 2
  pure (ident == [0x7f, 0x45, 0x4c, 0x46, 2, 1, 1] && kind == 62)

/-- What loading an image leaves behind: `struct elfinf` with the machine and the
address space. -/
structure Loaded (σ : Type) where
  dev : σ
  map : VmMap
  brk : Nat

/-- One iteration of `elf_load`, for the program header at an address. -/
def elfSegment (machine : Machine σ) (data : Nat) (loaded : Loaded σ) (phdr : Nat) :
    Option (Loaded σ) := do
  let field (offset width : Nat) :=
    loadWord machine loaded.dev loaded.map (addWord phdr offset) width
  let type ← field 0 4
  if type = 1 then
    let offset ← field 8 8
    let begin_ ← field 16 8
    let filesize ← field 32 8
    let memsize ← field 40 8
    let pageBegin := begin_ - begin_ % 0x1000
    let pageCnt := addWord (memsize - memsize % 0x1000) 0x2000
    let anon ← vmMapAnon loaded.map pageBegin pageCnt true
    let mapped ← vmMapAnonAlloc machine loaded.dev anon.1 anon.2 pageBegin pageCnt
    let cleared ← storeBytes machine mapped.2 mapped.1 begin_ (List.replicate memsize 0)
    let copied ← memcpy machine mapped.2 filesize cleared begin_ (addWord data offset)
    let end_ := addWord pageBegin pageCnt
    pure ⟨copied, mapped.2, if loaded.brk < end_ then end_ else loaded.brk⟩
  else pure loaded

/-- `elf_load`: the image and its entry point. -/
def elfLoad (machine : Machine σ) (dev : σ) (map : VmMap) (data : Nat) :
    Option (Loaded σ × Nat) := do
  let header (offset width : Nat) := loadWord machine dev map (addWord data offset) width
  let phOff ← header 32 8
  let phEntSize ← header 54 2
  let phNum ← header 56 2
  let loaded ← (List.range phNum).foldlM (fun loaded i =>
    elfSegment machine data loaded (addWord (addWord data phOff) (phEntSize * i))) ⟨dev, map, 0⟩
  let entry ← loadWord machine loaded.dev loaded.map (addWord data 24) 8
  pure (loaded, entry)

/-- A user stack under construction: the machine and the stack pointer. -/
structure UserStack (σ : Type) where
  dev : σ
  rsp : Nat

def pushStr (machine : Machine σ) (map : VmMap) (stack : UserStack σ) (string : CStr) :
    Option (UserStack σ) := do
  let rsp := subWord stack.rsp (string.length + 1)
  let dev ← storeBytes machine map stack.dev rsp (string ++ [0])
  pure ⟨dev, rsp⟩

/-- `PUSH` of a pointer-sized value -/
def pushWord (machine : Machine σ) (map : VmMap) (stack : UserStack σ) (value : Nat) :
    Option (UserStack σ) := do
  let rsp := subWord stack.rsp 8
  let dev ← storeBytes machine map stack.dev rsp (wordBytes value)
  pure ⟨dev, rsp⟩

/-- Push strings in order and collect their addresses. -/
def pushStrings (machine : Machine σ) (map : VmMap) :
    UserStack σ → List CStr → Option (UserStack σ × List Nat)
  | stack, [] => some (stack, [])
  | stack, string :: strings => do
      let stack ← pushStr machine map stack string
      let rest ← pushStrings machine map stack strings
      pure (rest.1, stack.rsp :: rest.2)

/-- `gen_auxv`: types and values, up to and including `AT_NULL` -/
def genAuxv (task : Task) : List (Nat × Nat) :=
  let secure := if task.euid ≠ task.ruid ∨ task.egid ≠ task.rgid then 1 else 0
  [(6, 0x1000), (11, task.ruid), (12, task.euid), (13, task.rgid), (14, task.egid),
    (23, secure), (0, 0)]

/-- `setup_user_stack` from a stack pointer: the machine and the final pointer -/
def setupUserStack (machine : Machine σ) (dev : σ) (task : Task) (rsp : Nat)
    (argv envp : List CStr) : Option (UserStack σ) := do
  let map := task.vmMap
  let args ← pushStrings machine map ⟨dev, rsp⟩ argv
  let envs ← pushStrings machine map args.1 envp
  let aligned : UserStack σ := ⟨envs.1.dev, envs.1.rsp - envs.1.rsp % 8⟩
  -- The vector is pushed from its end, each entry with its type at the lower address.
  let words := (genAuxv task).reverse.flatMap (fun entry => [entry.2, entry.1])
    ++ 0 :: envs.2.reverse ++ 0 :: args.2.reverse ++ [argv.length]
  words.foldlM (pushWord machine map) aligned

end Micro.Proc
