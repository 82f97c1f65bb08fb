import Mathlib.Algebra.Order.Ring.Int

/-!
# Commands of the AHCI driver

`port_read` and `port_write` issue a command for each sector of the request.  A command is for all
sectors that are left, and the port has a single frame for them.  The data are left out.
-/

namespace Micro.Dev

/-- What `port_access` writes to the command header, to the one descriptor of the table that it
fills in and to the command FIS. -/
structure Command where
  write : Bool
  prdtLen : Nat
  byteCnt : Nat
  lba : Nat
  count : Nat

/-- The number of sectors that are commanded; a count of 0 stands for 65536. -/
def Command.sectors (made : Command) : Nat := (made.count + 65535) % 65536 + 1

/-- A port, with the commands it was given. -/
structure Port where
  slots : Nat
  issued : List Command

/-- What becomes of a command: the drive stays busy, it reports an error, or it is done. -/
inductive Answer where
  | hung
  | failed
  | done

def portFindCmdSlot (slots : Nat) : Option Nat :=
  (List.range 32).find? fun i => (slots >>> i) &&& i == 0

/-- The command for `cnt` sectors from `lba` on. -/
def command (write : Bool) (lba cnt : Nat) : Command where
  write := write
  prdtLen := ((cnt + 2 ^ 32 - 1) % 2 ^ 32 / 16 % 2 ^ 16 + 1) % 2 ^ 16
  byteCnt := (cnt * 512 + 2 ^ 32 - 1) % 2 ^ 22
  lba := lba % 2 ^ 48
  count := cnt % 2 ^ 16

def portAccess (answer : Answer) (port : Port) (lba cnt : Nat) (write : Bool) : Port × Int :=
  match portFindCmdSlot port.slots, answer with
  | none, _ => (port, -5)
  | some _, .hung => (port, -5)
  | some _, .failed => ({ port with issued := command write lba cnt :: port.issued }, -5)
  | some _, .done => ({ port with issued := command write lba cnt :: port.issued }, 0)

/-- The loop of `port_write`, or of `port_read`, with `count` sectors to go; `answer` tells what
becomes of the command made then. -/
def portLoop (write : Bool) (answer : Nat → Answer) : (count lba : Nat) → Port → Port × Int
  | 0, _, port => (port, 0)
  | count + 1, lba, port =>
      let (port, e) := portAccess (answer (count + 1)) port lba ((count + 1) % 2 ^ 32) write
      if e < 0 then (port, e) else portLoop write answer count (lba + 1) port

/-- A request of `size` bytes at `off`; `off / 512` is a division of signed numbers. -/
def portTransfer (write : Bool) (answer : Nat → Answer) (off : Int) (size : Nat) (port : Port) :
    Port × Int :=
  (portLoop write answer (size / 512) (off.tdiv 512 % 2 ^ 64).toNat port).map id fun e =>
    if e < 0 then e else 512 * (size / 512 : Nat)

def portRead : (Nat → Answer) → Int → Nat → Port → Port × Int := portTransfer false

def portWrite : (Nat → Answer) → Int → Nat → Port → Port × Int := portTransfer true

/-- The transfer fits into the frame, and what is announced is what is commanded. -/
def InFrame (made : Command) : Prop :=
  512 * made.sectors ≤ 4096 ∧ made.byteCnt = 512 * made.sectors - 1 ∧ made.prdtLen ≤ 1

/-- Every command of `port_read` and of `port_write` stays in the frame. -/
def StaysInFrame (off : Int) (size : Nat) : Prop :=
  ∀ answer port, port.issued = [] →
    (∀ made ∈ (portRead answer off size port).1.issued, InFrame made) ∧
      ∀ made ∈ (portWrite answer off size port).1.issued, InFrame made

variable {write : Bool} {answer : Nat → Answer} {made : Command}

theorem portFindCmdSlot_eq {slots : Nat} : portFindCmdSlot slots = some 0 := by
  simp [portFindCmdSlot]

theorem portAccess_issued {port : Port} {answer : Answer} {lba cnt : Nat}
    (mem : made ∈ (portAccess answer port lba cnt write).1.issued) :
    made = command write lba cnt ∨ made ∈ port.issued := by
  simp only [portAccess, portFindCmdSlot_eq] at mem
  cases answer with
  | hung => exact .inr mem
  | failed => exact List.mem_cons.mp mem
  | done => exact List.mem_cons.mp mem

theorem portLoop_issued {count lba : Nat} {port : Port}
    (mem : made ∈ (portLoop write answer count lba port).1.issued) : made ∈ port.issued ∨
      ∃ lba cnt, cnt < count ∧ made = command write lba ((cnt + 1) % 2 ^ 32) := by
  induction count generalizing lba port with
  | zero => exact .inl mem
  | succ count ih =>
    have here : made ∈ (portAccess (answer (count + 1)) port lba ((count + 1) % 2 ^ 32)
        write).1.issued → made ∈ port.issued ∨
        ∃ lba cnt, cnt < count + 1 ∧ made = command write lba ((cnt + 1) % 2 ^ 32) :=
      fun mem => (portAccess_issued mem).symm.imp_right fun isMade =>
        ⟨lba, count, Nat.lt_succ_self _, isMade⟩
    rw [portLoop] at mem
    dsimp only at mem
    split at mem
    · exact here mem
    · rcases ih mem with earlier | ⟨lba, cnt, below, isMade⟩
      · exact here earlier
      · exact .inr ⟨lba, cnt, Nat.lt_succ_of_lt below, isMade⟩

theorem portLoop_nine {more lba : Nat} {port : Port} : ∃ last, command write last 9 ∈
    (portLoop write (fun c => if c = 9 then .failed else .done) (more + 9) lba port).1.issued := by
  induction more generalizing lba port with
  | zero => exact ⟨lba, by simp [portLoop, portAccess, portFindCmdSlot_eq]⟩
  | succ more ih =>
    rw [portLoop]
    simp only [portAccess, portFindCmdSlot_eq]
    exact ih

theorem not_staysInFrame {off : Int} {size : Nat} (many : 8 < size / 512) :
    ¬ StaysInFrame off size := by
  intro stays
  obtain ⟨_, mem⟩ := @portLoop_nine true (size / 512 - 9) (off.tdiv 512 % 2 ^ 64).toNat ⟨0, []⟩
  rw [Nat.sub_add_cancel many] at mem
  have inFrame := (stays _ _ rfl).2 _ mem
  simp [InFrame, command, Command.sectors] at inFrame

/-- Transfers stay in the frame of the port exactly when it can hold all of the request. -/
theorem dma_in_frame_iff (off : Int) (size : Nat) : StaysInFrame off size ↔ size / 512 ≤ 8 := by
  constructor
  · exact fun stays => Nat.not_lt.mp fun many => not_staysInFrame many stays
  · intro _ _ port none_
    have inFrame : ∀ {write made}, (made ∈ port.issued ∨ ∃ lba cnt, cnt < size / 512 ∧
        made = command write lba ((cnt + 1) % 2 ^ 32)) → InFrame made := by
      rintro write made (mem | ⟨lba, cnt, _, rfl⟩)
      · simp [none_] at mem
      · simp only [InFrame, command, Command.sectors]
        omega
    exact ⟨fun _ mem => inFrame (portLoop_issued mem), fun _ mem => inFrame (portLoop_issued mem)⟩

/-- Nine sectors -/
theorem nine_sectors_leave_frame : ¬ StaysInFrame 0 4608 := not_staysInFrame (by decide)

/-! ## Free slots -/

/-- The loop of `ahci_create_port`: the frame of the command table of each slot. -/
def ahciCreatePort (frames : Nat → Nat) : Nat → Option Nat :=
  (List.range 8).foldl (fun cmdtbls i slot => if slot = i then some (frames i) else cmdtbls slot)
    fun _ => none

/-- The slot is clear in both registers and has a command table. -/
def FreeSlot (frames : Nat → Nat) (sataActive cmdIssue slot : Nat) : Prop :=
  sataActive.testBit slot = false ∧ cmdIssue.testBit slot = false ∧
    (ahciCreatePort frames slot).isSome = true

/-- `port_find_cmd_slot` chooses the lowest of these slots, and none only if there is none. -/
def ChoosesLowest (frames : Nat → Nat) (sataActive cmdIssue : Nat) : Prop :=
  match portFindCmdSlot (sataActive ||| cmdIssue) with
  | some slot => FreeSlot frames sataActive cmdIssue slot ∧
      ∀ lower < slot, ¬ FreeSlot frames sataActive cmdIssue lower
  | none => ∀ slot, ¬ FreeSlot frames sataActive cmdIssue slot

/-- It does so exactly when slot 0 is free. -/
theorem choosesLowest_iff (frames : Nat → Nat) (sataActive cmdIssue : Nat) :
    ChoosesLowest frames sataActive cmdIssue ↔
      sataActive.testBit 0 = false ∧ cmdIssue.testBit 0 = false := by
  simp only [ChoosesLowest, portFindCmdSlot_eq]
  constructor
  · rintro ⟨⟨active, issued, _⟩, _⟩
    exact ⟨active, issued⟩
  · rintro ⟨active, issued⟩
    exact ⟨⟨active, issued, rfl⟩, fun _ lower => absurd lower (Nat.not_lt_zero _)⟩

/-- Slot 0 is chosen while its command is active. -/
theorem active_slot_chosen : ¬ ChoosesLowest id 1 0 := by
  rw [ChoosesLowest, portFindCmdSlot_eq]
  rintro ⟨⟨active, _⟩, _⟩
  cases active

end Micro.Dev
