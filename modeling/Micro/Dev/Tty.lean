import Micro.Dev.Ringbuf

/-!
# Pseudoterminals

`kern/tty.c`: two ring buffers of 1024 bytes, one for each direction.  What the master
writes goes to the slave's input and, with `ECHO`, also to the output, which the master
reads back together with what the slave writes.  Neither write looks at how much room
there is, and the master's read returns the size it was asked for.
-/

namespace Micro.Dev

open Lib List Option

/-- `struct pt`, as far as its reads and writes use it -/
structure Pt where
  inbuf : Ringbuf
  outbuf : Ringbuf
  cIflag : Nat

def Pt.echo (pt : Pt) : Bool := pt.cIflag &&& 0o10 != 0

/-- `ptmx_open_new`; the buffers hold what `kmalloc` finds in them -/
def ptmxOpenNew (inMemory outMemory : Nat → UInt8) : Pt :=
  { inbuf := ringbufCreate inMemory 1024
    outbuf := ringbufCreate outMemory 1024
    cIflag := 0o10 }

/-- A read that returned: the value, and the bytes it copied into the caller's buffer. -/
structure PtRead where
  pt : Pt
  ret : Int
  copied : List UInt8

/-- `pts_read` with a buffer of `size` bytes; while there is nothing to read it yields -/
def ptsRead (pt : Pt) (size : Nat) : Option PtRead :=
  let bytes := toSigned (ringbufSize pt.inbuf)
  if bytes = 0 then none
  else
    let bytes := if size < ofSigned bytes then toSigned size else bytes
    let done := ringbufRead (ofSigned bytes) pt.inbuf
    some { pt := { pt with inbuf := done.2 }, ret := bytes, copied := done.1 }

def ptsWrite (pt : Pt) (buf : List UInt8) : Pt × Int :=
  ({ pt with outbuf := ringbufWrite pt.outbuf buf }, toSigned buf.length)

/-- `ptm_read` with a buffer of `size` bytes -/
def ptmRead (pt : Pt) (size : Nat) : PtRead :=
  let bytes := toSigned (ringbufSize pt.outbuf)
  if bytes ≤ 0 then { pt, ret := 0, copied := [] }
  else
    let bytes := if size < ofSigned bytes then toSigned size else bytes
    let done := ringbufRead (ofSigned bytes) pt.outbuf
    { pt := { pt with outbuf := done.2 }, ret := toSigned size, copied := done.1 }

def ptmWrite (pt : Pt) (buf : List UInt8) : Pt × Int :=
  let pt := { pt with inbuf := ringbufWrite pt.inbuf buf }
  let pt := if pt.echo then { pt with outbuf := ringbufWrite pt.outbuf buf } else pt
  (pt, toSigned buf.length)

/-! ## Histories -/

/-- The calls on a pseudoterminal; a read is given the caller's buffer. -/
inductive PtCall where
  | ptmWrite (buf : List UInt8)
  | ptsRead (buf : List UInt8)
  | ptsWrite (buf : List UInt8)
  | ptmRead (buf : List UInt8)
  deriving DecidableEq, Repr

/-- What one end has read, and what has been written for it to read. -/
structure PtChannel where
  reported : List UInt8
  written : List UInt8

/-- The part of the caller's buffer that a read reports as read. -/
def PtRead.reported (read : PtRead) (buf : List UInt8) : List UInt8 :=
  (read.copied ++ buf.drop read.copied.length).take read.ret.toNat

/-- A pseudoterminal with its two channels, named after the end that reads, and for each
read the value it returned and the number of bytes it copied. -/
structure PtHistory where
  pt : Pt
  slave : PtChannel
  master : PtChannel
  counts : List (Int × Nat)

/-- Bytes are read from a channel. -/
def PtChannel.take (channel : PtChannel) (bytes : List UInt8) : PtChannel :=
  { channel with reported := channel.reported ++ bytes }

/-- A write to a channel returns; the bytes it reports as written are the first of its
buffer. -/
def PtChannel.put (channel : PtChannel) (buf : List UInt8) (ret : Int) : PtChannel :=
  { channel with written := channel.written ++ buf.take ret.toNat }

/-- One call on a pseudoterminal. -/
def ptStep (history : PtHistory) : PtCall → Option PtHistory
  | .ptmWrite buf =>
      let done := ptmWrite history.pt buf
      some { history with
        pt := done.1
        slave := history.slave.put buf done.2
        master := if history.pt.echo then history.master.put buf done.2 else history.master }
  | .ptsRead buf => (ptsRead history.pt buf.length).map fun read =>
      { history with
        pt := read.pt
        slave := history.slave.take (read.reported buf)
        counts := history.counts ++ [(read.ret, read.copied.length)] }
  | .ptsWrite buf =>
      let done := ptsWrite history.pt buf
      some { history with pt := done.1, master := history.master.put buf done.2 }
  | .ptmRead buf =>
      let read := ptmRead history.pt buf.length
      some { history with
        pt := read.pt
        master := history.master.take (read.reported buf)
        counts := history.counts ++ [(read.ret, read.copied.length)] }

/-- Every read returns the number of bytes it copied, and each end has read a part of
what was written for it, in order. -/
structure FaithfulPt (history : PtHistory) : Prop where
  counted : ∀ count ∈ history.counts, count.1 = count.2
  slave : history.slave.reported <+: history.slave.written
  master : history.master.reported <+: history.master.written

/-- The bytes on their way fit the buffer they are in, and a master's read asks for no
more than there is, unless there is nothing. -/
def moderate (history : PtHistory) : PtCall → Bool
  | .ptmWrite buf =>
      ringbufSize history.pt.inbuf + buf.length ≤ 1024 &&
        (!history.pt.echo || ringbufSize history.pt.outbuf + buf.length ≤ 1024)
  | .ptsRead _ => true
  | .ptsWrite buf => ringbufSize history.pt.outbuf + buf.length ≤ 1024
  | .ptmRead buf =>
      ringbufSize history.pt.outbuf = 0 || buf.length ≤ ringbufSize history.pt.outbuf

/-! ## Channels -/

/-- A buffer holds what has been written for an end and not been read yet. -/
structure Carries (buf : Ringbuf) (channel : PtChannel) (queue : List UInt8) : Prop where
  size : buf.size = 1024
  holds : Holds buf queue
  order : channel.reported ++ queue = channel.written

namespace Carries

variable {buf : Ringbuf} {channel : PtChannel} {queue : List UInt8}

variable (carries : Carries buf channel queue)
include carries

theorem sublist : channel.reported <+: channel.written :=
  ⟨queue, carries.order⟩

theorem write {bytes : List UInt8} (fits : ringbufSize buf + bytes.length ≤ 1024) :
    Carries (ringbufWrite buf bytes) (channel.put bytes (toSigned bytes.length))
      (queue ++ bytes) := by
  obtain ⟨isSize, holds, order⟩ := carries
  rw [holds.size_eq, ← isSize] at fits
  obtain ⟨written, sameSize⟩ := holds.write_fits bytes fits
  refine ⟨sameSize.trans isSize, written, ?_⟩
  rw [toSigned_of_lt (by omega)]
  simp only [PtChannel.put, Int.toNat_natCast, take_length]
  rw [← append_assoc, order]

theorem read {size : Nat} (available : size ≤ queue.length) (caller : List UInt8) (pt : Pt) :
    (ringbufRead size buf).1.length = size ∧
      Carries (ringbufRead size buf).2
        (channel.take (PtRead.reported ⟨pt, size, (ringbufRead size buf).1⟩ caller))
        (queue.drop size) := by
  obtain ⟨isSize, holds, order⟩ := carries
  obtain ⟨taken, left, sameSize⟩ := holds.read available
  have length : (queue.take size).length = size := by
    rw [length_take]
    exact Nat.min_eq_left available
  rw [taken]
  refine ⟨length, sameSize.trans isSize, left, ?_⟩
  simp only [PtChannel.take, PtRead.reported, Int.toNat_natCast]
  rw [take_append_of_le_length (Nat.le_of_eq length.symm), take_of_length_le
    (Nat.le_of_eq length), append_assoc, take_append_drop, order]

end Carries

theorem clamped {size available : Nat} (small : available ≤ 1024) :
    (if size < ofSigned (toSigned available) then toSigned size else toSigned available) =
      (min size available : Nat) := by
  rw [toSigned_of_lt (by omega), ofSigned_natCast (by omega)]
  split
  · rw [toSigned_of_lt (by omega)]
    omega
  · omega

/-! ## Runs -/

/-- The state of both channels. -/
structure PtFlow (history : PtHistory) : Prop where
  counted : ∀ count ∈ history.counts, count.1 = count.2
  slave : ∃ queue, Carries history.pt.inbuf history.slave queue
  master : ∃ queue, Carries history.pt.outbuf history.master queue

theorem ptStep_flow {history next : PtHistory} {call : PtCall} (flow : PtFlow history)
    (fits : moderate history call = true) (steps : ptStep history call = some next) :
    PtFlow next := by
  obtain ⟨counted, ⟨input, slave⟩, ⟨output, master⟩⟩ := flow
  cases call with
  | ptmWrite buf =>
    simp only [moderate, Bool.and_eq_true, Bool.or_eq_true, decide_eq_true_eq,
      Bool.not_eq_true'] at fits
    cases steps
    refine ⟨counted, ⟨input ++ buf, ?_⟩, ?_⟩
    · have written := slave.write fits.1
      simp only [ptmWrite]
      split <;> exact written
    · have sameEcho : Pt.echo { history.pt with inbuf := ringbufWrite history.pt.inbuf buf } =
          history.pt.echo := rfl
      simp only [ptmWrite, sameEcho]
      cases echo : history.pt.echo with
      | false => exact ⟨output, master⟩
      | true =>
        have room : ringbufSize history.pt.outbuf + buf.length ≤ 1024 := by
          rcases fits.2 with silent | room
          · cases echo.symm.trans silent
          · exact room
        exact ⟨_, master.write room⟩
  | ptsRead buf =>
    obtain ⟨read, reads, isNext⟩ := map_eq_some_iff.mp steps
    subst isNext
    have small := slave.holds.bound
    rw [slave.size] at small
    simp only [ptsRead, slave.holds.size_eq, clamped small] at reads
    split at reads
    · cases reads
    · rw [ofSigned_natCast (by omega)] at reads
      cases reads
      obtain ⟨length, carries⟩ := slave.read (Nat.min_le_right buf.length input.length) buf
        { history.pt with
          inbuf := (ringbufRead (min buf.length input.length) history.pt.inbuf).2 }
      refine ⟨forall_mem_append.mpr ⟨counted, forall_mem_singleton.mpr ?_⟩, ⟨_, carries⟩,
        ⟨output, master⟩⟩
      rw [length]
  | ptsWrite buf =>
    simp only [moderate, decide_eq_true_eq] at fits
    cases steps
    exact ⟨counted, ⟨input, slave⟩, ⟨_, master.write fits⟩⟩
  | ptmRead buf =>
    simp only [moderate, Bool.or_eq_true, decide_eq_true_eq] at fits
    rw [master.holds.size_eq] at fits
    cases steps
    have small := master.holds.bound
    rw [master.size] at small
    have available : toSigned output.length = output.length := toSigned_of_lt (by omega)
    simp only [ptmRead, master.holds.size_eq, clamped small]
    split
    · -- Nothing to read: the buffer and the channel stay as they are.
      refine ⟨forall_mem_append.mpr ⟨counted, forall_mem_singleton.mpr rfl⟩, ⟨input, slave⟩,
        ⟨output, master.size, master.holds, ?_⟩⟩
      simp only [PtChannel.take, PtRead.reported, Int.toNat_zero, take_zero, append_nil]
      exact master.order
    · have asked : buf.length ≤ output.length := by omega
      rw [Nat.min_eq_left asked, ofSigned_natCast (by omega), toSigned_of_lt (by omega)]
      obtain ⟨length, carries⟩ := master.read asked buf
        { history.pt with outbuf := (ringbufRead buf.length history.pt.outbuf).2 }
      exact ⟨forall_mem_append.mpr ⟨counted, forall_mem_singleton.mpr (by rw [length])⟩,
        ⟨input, slave⟩, ⟨_, carries⟩⟩

/-- A new pseudoterminal, on which nothing has been read or written; its terminal flags
may have been set already. -/
def newPt (inMemory outMemory : Nat → UInt8) (cIflag : Nat) : PtHistory :=
  { pt := { ptmxOpenNew inMemory outMemory with cIflag }
    slave := ⟨[], []⟩
    master := ⟨[], []⟩
    counts := [] }

theorem newPt_flow (inMemory outMemory : Nat → UInt8) (cIflag : Nat) :
    PtFlow (newPt inMemory outMemory cIflag) where
  counted := fun _ mem => absurd mem not_mem_nil
  slave := ⟨[], rfl, .create inMemory (by decide) (by decide), rfl⟩
  master := ⟨[], rfl, .create outMemory (by decide) (by decide), rfl⟩

/-- In every interleaving whose writes fit the buffers they go to and whose master's
reads ask for no more than there is, both channels are faithful. -/
theorem pt_channels_faithful (inMemory outMemory : Nat → UInt8) (cIflag : Nat)
    (calls : List PtCall) (history : PtHistory)
    (driven : drive (guarded ptStep moderate) (newPt inMemory outMemory cIflag) calls =
      some history) : FaithfulPt history := by
  have preserved : ∀ history call next, PtFlow history →
      Restricted (fun history call next => ptStep history call = some next)
        (fun history call => moderate history call = true) history call next → PtFlow next :=
    fun _ _ _ flow ⟨steps, fits⟩ => ptStep_flow flow fits steps
  have flow := (Run.of_drive guarded_restricted driven).invariant preserved
    (newPt_flow inMemory outMemory cIflag)
  obtain ⟨_, slave⟩ := flow.slave
  obtain ⟨_, master⟩ := flow.master
  exact ⟨flow.counted, slave.sublist, master.sublist⟩

/-- The master writes, with echo; the slave reads a part and the master reads back. -/
theorem pt_channels_faithful_echo :
    ∃ history, drive (guarded ptStep moderate) (newPt (fun _ => 0) (fun _ => 0) 0o10)
        [.ptmWrite [1, 2, 3], .ptsRead [0, 0], .ptmRead [0, 0, 0]] = some history ∧
      history.slave.reported = [1, 2] ∧ history.master.reported = [1, 2, 3] ∧
      FaithfulPt history := by
  have driven : (drive (guarded ptStep moderate) (newPt (fun _ => 0) (fun _ => 0) 0o10)
      [.ptmWrite [1, 2, 3], .ptsRead [0, 0], .ptmRead [0, 0, 0]]).map (fun history =>
        (history.slave.reported, history.master.reported)) = some ([1, 2], [1, 2, 3]) := by
    decide +kernel
  obtain ⟨history, reached, observed⟩ := map_eq_some_iff.mp driven
  obtain ⟨slave, master⟩ := Prod.mk.inj observed
  exact ⟨history, reached, slave, master, pt_channels_faithful _ _ _ _ history reached⟩

/-- The slave writes one byte, and a master's read with a buffer of two returns two. -/
theorem ptmRead_returns_size :
    ∃ history, drive ptStep (newPt (fun _ => 0) (fun _ => 0) 0o10)
        [.ptsWrite [1], .ptmRead [0, 0]] = some history ∧ ¬ FaithfulPt history := by
  have driven : (drive ptStep (newPt (fun _ => 0) (fun _ => 0) 0o10)
      [.ptsWrite [1], .ptmRead [0, 0]]).map (fun history => history.counts) = some [(2, 1)] := by
    decide +kernel
  obtain ⟨history, reached, counts⟩ := map_eq_some_iff.mp driven
  refine ⟨history, reached, fun faithful => ?_⟩
  have counted := faithful.counted (2, 1) (by rw [counts]; exact mem_singleton.mpr rfl)
  exact absurd counted (by decide)

end Micro.Dev
