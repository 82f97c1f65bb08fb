import Micro.Dev.Ringbuf

/-!
# Pipes

A pipe is a ring buffer with a reading and a writing end.  A read of an empty pipe
and a write to a full one yield until the other end has moved; here a call that has
to yield has no result yet.  The history of a pipe keeps every read and every write,
and the bytes read so far, followed by those in the buffer, are the bytes accepted.
-/

namespace Micro.Fs

open Lib Dev List Option

/-- `struct pipe`, without the links back to its inodes -/
structure Pipe where
  buffer : Ringbuf
  closed : Bool

/-- A call on a pipe that returned: the value, the bytes moved, and whether the caller
was sent `SIGPIPE`. -/
structure PipeIo where
  pipe : Pipe
  ret : Int
  bytes : List UInt8
  sigpipe : Bool

def pipeCreate (memory : Nat → UInt8) : Pipe :=
  { buffer := ringbufCreate memory 4096, closed := false }

def pipeRead (pipe : Pipe) (size : Nat) : Option PipeIo :=
  let bytes := toSigned (ringbufSize pipe.buffer)
  if bytes = 0 then
    if pipe.closed then some { pipe, ret := -4, bytes := [], sigpipe := true } else none
  else
    let bytes := if bytes < toSigned size then bytes else toSigned size
    let done := ringbufRead (ofSigned bytes) pipe.buffer
    some { pipe := { pipe with buffer := done.2 }, ret := bytes, bytes := done.1, sigpipe := false }

def pipeWrite (pipe : Pipe) (buf : List UInt8) : Option PipeIo :=
  if pipe.buffer.full then
    if pipe.closed then some { pipe, ret := -4, bytes := [], sigpipe := true } else none
  else
    let empty := toSigned (subWord pipe.buffer.size (ringbufSize pipe.buffer))
    let bytes := if toSigned buf.length < empty then toSigned buf.length else empty
    let accepted := buf.take (ofSigned bytes)
    some { pipe := { pipe with buffer := ringbufWrite pipe.buffer accepted }, ret := bytes,
           bytes := accepted, sigpipe := false }

/-! ## Histories -/

variable {queue : List UInt8} {pipe : Pipe} {io : PipeIo}

inductive PipeCall where
  | read (size : Nat)
  | write (buf : List UInt8)
  deriving DecidableEq, Repr

def PipeCall.size : PipeCall → Nat
  | .read size => size
  | .write buf => buf.length

/-- A pipe with every read, as the number of bytes asked for, the value returned and the
bytes returned, and every write, as the value returned and the buffer. -/
structure PipeHistory where
  pipe : Pipe
  reads : List (Nat × Int × List UInt8)
  writes : List (Int × List UInt8)

def pipeStep (history : PipeHistory) : PipeCall → Option PipeHistory
  | .read size => (pipeRead history.pipe size).map fun io =>
      { history with pipe := io.pipe, reads := history.reads ++ [(size, io.ret, io.bytes)] }
  | .write buf => (pipeWrite history.pipe buf).map fun io =>
      { history with pipe := io.pipe, writes := history.writes ++ [(io.ret, buf)] }

/-- The bytes returned by the reads. -/
def PipeHistory.received (history : PipeHistory) : List UInt8 :=
  history.reads.flatMap fun read => read.2.2

/-- The part of each buffer that its write reported as written. -/
def PipeHistory.sent (history : PipeHistory) : List UInt8 :=
  history.writes.flatMap fun write => write.2.take write.1.toNat

/-- The bytes received and the bytes on their way are the bytes sent. -/
structure Flow (history : PipeHistory) (queue : List UInt8) : Prop where
  opened : history.pipe.closed = false
  size : history.pipe.buffer.size = 4096
  holds : Holds history.pipe.buffer queue
  fifo : history.received ++ queue = history.sent
  counted : ∀ read ∈ history.reads, read.2.1 = read.2.2.length ∧ (1 ≤ read.1 → 1 ≤ read.2.2.length)

theorem pipeRead_spec {size : Nat} (opened : pipe.closed = false) (isSize : pipe.buffer.size = 4096)
    (holds : Holds pipe.buffer queue) (bound : size < 2 ^ 63) (reads : pipeRead pipe size = some io) :
    queue ≠ [] ∧ io.pipe.closed = false ∧ io.pipe.buffer.size = 4096 ∧
      io.bytes = queue.take (min queue.length size) ∧
      io.ret = (min queue.length size : Nat) ∧
      Holds io.pipe.buffer (queue.drop (min queue.length size)) := by
  have small := holds.bound
  have available : toSigned (ringbufSize pipe.buffer) = queue.length := by
    rw [holds.size_eq]
    exact toSigned_of_lt (by omega)
  have clamped : (if (queue.length : Int) < size then (queue.length : Int) else size) =
      (min queue.length size : Nat) := by
    split <;> omega
  simp only [pipeRead, available, opened, toSigned_of_lt bound, clamped] at reads
  split at reads
  · cases reads
  · rename_i notEmpty
    rw [ofSigned_natCast (by omega)] at reads
    obtain ⟨taken, left, sameSize⟩ := holds.read (Nat.min_le_left queue.length size)
    cases reads
    refine ⟨?_, rfl, sameSize.trans isSize, taken, rfl, left⟩
    intro isEmpty
    exact notEmpty (by simp [isEmpty])

theorem pipeWrite_spec {buf : List UInt8} (opened : pipe.closed = false)
    (isSize : pipe.buffer.size = 4096) (holds : Holds pipe.buffer queue)
    (bound : buf.length < 2 ^ 63) (writes : pipeWrite pipe buf = some io) :
    io.pipe.closed = false ∧ io.pipe.buffer.size = 4096 ∧
      io.ret = (min buf.length (4096 - queue.length) : Nat) ∧
      Holds io.pipe.buffer (queue ++ buf.take (min buf.length (4096 - queue.length))) := by
  have small := holds.bound
  have room : toSigned (subWord 4096 (ringbufSize pipe.buffer)) = (4096 - queue.length : Nat) := by
    rw [holds.size_eq, subWord_of_le (by omega) (by decide)]
    exact toSigned_of_lt (by omega)
  have clamped : (if (buf.length : Int) < (4096 - queue.length : Nat) then (buf.length : Int)
      else (4096 - queue.length : Nat)) = (min buf.length (4096 - queue.length) : Nat) := by
    split <;> omega
  simp only [pipeWrite, opened, isSize, toSigned_of_lt bound, room, clamped] at writes
  split at writes
  · cases writes
  · rw [ofSigned_natCast (by omega)] at writes
    cases writes
    have fits : queue.length + (buf.take (min buf.length (4096 - queue.length))).length ≤
        pipe.buffer.size := by
      rw [length_take]
      omega
    obtain ⟨written, sameSize⟩ := holds.write_fits _ fits
    exact ⟨rfl, sameSize.trans isSize, rfl, written⟩

theorem pipeStep_flow {history next : PipeHistory} {call : PipeCall} (flow : Flow history queue)
    (small : call.size < 2 ^ 63) (steps : pipeStep history call = some next) :
    ∃ queue, Flow next queue := by
  obtain ⟨opened, isSize, holds, fifo, counted⟩ := flow
  cases call with
  | read size =>
    have bound : size < 2 ^ 63 := small
    obtain ⟨io, reads, isNext⟩ := map_eq_some_iff.mp steps
    obtain ⟨notEmpty, stays, sameSize, bytes, ret, left⟩ :=
      pipeRead_spec opened isSize holds bound reads
    subst isNext
    refine ⟨queue.drop (min queue.length size), stays, sameSize, left, ?_, ?_⟩
    · simp only [PipeHistory.received, flatMap_append, flatMap_singleton] at fifo ⊢
      rw [append_assoc, bytes, take_append_drop]
      exact fifo
    · refine forall_mem_append.mpr ⟨counted, forall_mem_singleton.mpr ?_⟩
      have positive := length_pos_iff.mpr notEmpty
      simp only [bytes, length_take]
      omega
  | write buf =>
    have bound : buf.length < 2 ^ 63 := small
    obtain ⟨io, writes, isNext⟩ := map_eq_some_iff.mp steps
    obtain ⟨stays, sameSize, ret, written⟩ := pipeWrite_spec opened isSize holds bound writes
    subst isNext
    refine ⟨_, stays, sameSize, written, ?_, counted⟩
    simp only [PipeHistory.received, PipeHistory.sent, flatMap_append,
      flatMap_singleton, ret, Int.toNat_natCast] at fifo ⊢
    rw [← append_assoc, fifo]

/-- For every interleaving of reads and writes, the bytes returned by the reads so far,
followed by the contents of the buffer, are the bytes the writes accepted; and every
read returns the bytes it counts, at least one if it asks for any. -/
theorem pipe_lossless_fifo (memory : Nat → UInt8) (calls : List PipeCall)
    (history : PipeHistory) (sizes : ∀ call ∈ calls, call.size < 2 ^ 63)
    (driven : drive pipeStep { pipe := pipeCreate memory, reads := [], writes := [] } calls =
      some history) :
    history.received ++ ringbufContents history.pipe.buffer = history.sent ∧
      ∀ read ∈ history.reads, read.2.1 = read.2.2.length ∧ (1 ≤ read.1 → 1 ≤ read.2.2.length) := by
  have start : Flow { pipe := pipeCreate memory, reads := [], writes := [] } [] :=
    ⟨rfl, rfl, .create memory (by decide) (by decide), rfl,
      fun _ member => absurd member not_mem_nil⟩
  have preserved : ∀ history call next, (∃ queue, Flow history queue) →
      call.size < 2 ^ 63 → pipeStep history call = some next → ∃ queue, Flow next queue :=
    fun _ _ _ ⟨_, flow⟩ bound steps => pipeStep_flow flow bound steps
  obtain ⟨queue, flow⟩ := drive_invariant preserved calls _ history sizes ⟨[], start⟩ driven
  rw [flow.holds.contents_eq]
  exact ⟨flow.fifo, flow.counted⟩

/-- Three bytes are written and two of them read. -/
theorem pipe_lossless_fifo_partial :
    ∃ history, drive pipeStep { pipe := pipeCreate fun _ => 0, reads := [], writes := [] }
        [.write [1, 2, 3], .read 2] = some history ∧
      history.received = [1, 2] ∧ ringbufContents history.pipe.buffer = [3] ∧
      history.received ++ ringbufContents history.pipe.buffer = history.sent := by
  have driven : (drive pipeStep { pipe := pipeCreate fun _ => 0, reads := [], writes := [] }
      [.write [1, 2, 3], .read 2]).map (fun history =>
        (history.received, ringbufContents history.pipe.buffer)) = some ([1, 2], [3]) := by
    decide +kernel
  obtain ⟨history, reached, observed⟩ := map_eq_some_iff.mp driven
  obtain ⟨received, contents⟩ := Prod.mk.inj observed
  have fifo := pipe_lossless_fifo (fun _ => 0) _ history (by decide) reached
  exact ⟨history, reached, received, contents, fifo.1⟩

end Micro.Fs
