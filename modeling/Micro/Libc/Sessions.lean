import Micro.Libc.Realloc

/-!
# Programs and the contract of `realloc`

A program calls the allocator and writes to the payloads it holds.  It is careful when it never
lets `realloc` copy a payload to a smaller block; then every call that finds its block inside of
the mapped bytes returns, the cells stay intact and `realloc` keeps its contract.
-/

namespace Micro.Libc

open Lib Heap Option List

variable {start stop ptr : Nat} {cells : List Cell} {heap : LibcHeap}

/-- A call of a program, or a store through a pointer it holds. -/
inductive Call where
  | malloc (n : UInt64)
  | free (ptr : Nat)
  | realloc (ptr : Nat) (n : UInt64)
  | calloc (nitems size : UInt64)
  | store (ptr offset : Nat) (byte : UInt8)
  deriving DecidableEq, Repr

/-- The heap and the pointers returned and not yet freed. -/
structure Session where
  heap : LibcHeap
  live : List Nat

variable {session : Session}

/-- The pointers held after an allocation. -/
def grant (live : List Nat) (ptr : Nat) : List Nat :=
  if ptr = 0 then live else ptr :: live

def Session.call (session : Session) : Call → Option Session
  | .malloc n =>
      (malloc session.heap n.toNat).map fun (ptr, heap) =>
        { heap, live := grant session.live ptr }
  | .free ptr => some { heap := free session.heap ptr, live := session.live.erase ptr }
  | .realloc ptr n =>
      (realloc session.heap ptr n.toNat).map fun (new, heap) =>
        { heap
          live :=
            if new = 0 ∧ n ≠ 0 then session.live else grant (session.live.erase ptr) new }
  | .calloc nitems size =>
      (calloc session.heap nitems.toNat size.toNat).map fun (ptr, heap) =>
        { heap, live := grant session.live ptr }
  | .store ptr offset byte =>
      (memset session.heap (ptr + offset) byte 1).map fun heap => { session with heap }

/-- The session right after `__malloc_init`. -/
def initial (bytes : Buf) (start stop : Nat) : Session where
  heap := mallocInit bytes start stop
  live := []

/-- No free block takes `n` bytes. -/
def Full (heap : LibcHeap) (n : Nat) : Prop :=
  ∃ blocks, Walk heap.header heap.first blocks ∧ ∀ b ∈ blocks, heap.used b = 0 → heap.size b < n

/-- The program frees and reallocates only pointers it holds and writes only inside of its
payloads; it does not move a payload to a block that is too small for it, nor clear one that
was rounded to zero. -/
def Careful (session : Session) : Call → Prop
  | .malloc _ => True
  | .free ptr => ptr = 0 ∨ ptr ∈ session.live
  | .realloc ptr n =>
      ptr = 0 ∨ ptr ∈ session.live ∧
        (n = 0 ∨ session.heap.size (ptr - 32) ≤ roundRequest n.toNat ∨
          Full session.heap (roundRequest n.toNat))
  | .calloc nitems size =>
      nitems.toNat * size.toNat % 2 ^ 64 ≤ 2 ^ 64 - 32 ∨
        Full session.heap (roundRequest (nitems.toNat * size.toNat % 2 ^ 64))
  | .store ptr offset _ => ptr ∈ session.live ∧ offset < session.heap.size (ptr - 32)

/-- The number of bytes that a call asks `malloc` for. -/
def Call.request : Call → Nat
  | .malloc n | .realloc _ n => n.toNat
  | .calloc nitems size => nitems.toNat * size.toNat % 2 ^ 64
  | .free _ | .store _ _ _ => 0

/-- The program is careful, and the blocks that can take what it asks for do not reach behind
the mapped bytes. -/
def Confined (session : Session) (call : Call) : Prop :=
  Careful session call ∧
    (call.request = 0 ∨ Spares session.heap (roundRequest call.request))

/-! ## Preservation -/

/-- The cells of a sound session. -/
structure Sound (start stop : Nat) (session : Session) (cells : List Cell) : Prop where
  holds : Holds start stop session.heap cells
  live : session.live.Perm (usedAt start cells)

section Sound

variable {n : UInt64}

theorem Sound.payload (sound : Sound start stop session cells) (live : ptr ∈ session.live) :
    (ptr, session.heap.size (ptr - 32)) ∈ payloads start cells := by
  obtain ⟨_, mem⟩ := mem_usedAt_iff.mp (sound.live.mem_iff.mp live)
  rw [(sound.holds.size mem).2.1]
  exact mem

theorem Sound.null (sound : Sound start stop session cells) : 0 ∉ session.live := by
  intro live
  have bound := sound.holds.payload_bound (sound.payload live)
  omega

theorem Holds.full_iff (holds : Holds start stop heap cells) (n : Nat) :
    Full heap n ↔ allocate n cells = none := by
  have laid := holds.laid.congr fun b isHeader => (holds.header isHeader).symm
  have inHeaders : (∀ b ∈ addresses start cells, heap.used b = 0 → heap.size b < n) ↔
      allocate n cells = none := by
    rw [← laid.full_iff n]
    simp [LibcHeap.header]
  rw [← inHeaders]
  constructor
  · rintro ⟨_, walk, full⟩
    rw [holds.walk.unique walk]
    exact full
  · exact fun full => ⟨_, holds.walk, full⟩

section

variable (sound : Sound start stop session cells)
include sound

theorem Sound.malloc (confined : Confined session (.malloc n)) :
    ∃ next cells', session.call (.malloc n) = some next ∧ Sound start stop next cells' := by
  obtain ⟨_, _, cells', called, allocation, holds, -⟩ :=
    sound.holds.malloc n.toNat_lt confined.2
  simp only [Session.call, called]
  exact ⟨_, cells', rfl, holds, allocation.live sound.holds.aligned sound.live⟩

theorem Sound.calloc {nitems size : UInt64} (confined : Confined session (.calloc nitems size)) :
    ∃ next cells', session.call (.calloc nitems size) = some next ∧ Sound start stop next cells' := by
  obtain ⟨careful, spares⟩ := confined
  rw [Careful, sound.holds.full_iff] at careful
  obtain ⟨_, _, cells', called, allocation, holds, -⟩ := sound.holds.calloc spares careful
  simp only [Session.call, called]
  exact ⟨_, cells', rfl, holds, allocation.live sound.holds.aligned sound.live⟩

theorem Sound.erase {payload : Nat × Nat} {cells' : List Cell}
    (perm : (payloads start cells).Perm (payload :: payloads start cells')) :
    (session.live.erase payload.1).Perm (usedAt start cells') := by
  have erased := (sound.live.trans (usedAt_eq start cells ▸ perm.map Prod.fst)).erase payload.1
  rw [map_cons, erase_cons_head, ← usedAt_eq] at erased
  exact erased

theorem Sound.free (careful : Careful session (.free ptr)) :
    ∃ next cells', session.call (.free ptr) = some next ∧ Sound start stop next cells' := by
  rcases careful with rfl | live
  · refine ⟨_, cells, rfl, sound.holds, ?_⟩
    rw [erase_of_not_mem sound.null]
    exact sound.live
  · obtain ⟨cells', perm, frees⟩ := sound.holds.free_payload (sound.payload live)
    exact ⟨_, cells', rfl, (frees _ sound.holds).1, sound.erase perm⟩

theorem Sound.store {offset : Nat} {byte : UInt8}
    (careful : Careful session (.store ptr offset byte)) :
    ∃ next cells', session.call (.store ptr offset byte) = some next ∧
      Sound start stop next cells' := by
  obtain ⟨live, _⟩ := careful
  have bound := sound.holds.payload_bound (sound.payload live)
  rw [Session.call, memset, if_pos (by omega)]
  refine ⟨_, cells, rfl, ?_, sound.live⟩
  apply sound.holds.write (sound.payload live) (by rfl) (by rfl)
  intro k _
  exact put_outside (by simp only [length_replicate]; omega)

end

theorem realloc_null {heap' : LibcHeap} {n new : Nat} (nonzero : n ≠ 0)
    (called : malloc heap n = some (new, heap')) : realloc heap 0 n = some (new, heap') := by
  simp only [Libc.realloc, if_neg nonzero, called, bind_eq_bind, bind_some]
  split
  · rename_i null
    rw [null]
  · exact if_pos trivial

section

variable (sound : Sound start stop session cells)
include sound

theorem Sound.realloc_null (nonzero : n.toNat ≠ 0)
    (spares : Spares session.heap (roundRequest n.toNat)) :
    ∃ next cells', session.call (.realloc 0 n) = some next ∧ Sound start stop next cells' := by
  obtain ⟨_, _, cells', called, allocation, holds, -⟩ :=
    sound.holds.malloc n.toNat_lt (.inr spares)
  have granted := allocation.live sound.holds.aligned sound.live
  rw [Session.call, Libc.realloc_null nonzero called]
  refine ⟨_, cells', rfl, holds, ?_⟩
  dsimp only
  rw [erase_of_not_mem sound.null]
  split
  · rename_i null
    rw [if_pos null.1] at granted
    exact granted
  · exact granted

theorem Sound.realloc_live (live : ptr ∈ session.live) (nonzero : n.toNat ≠ 0)
    (spares : Spares session.heap (roundRequest n.toNat))
    (careful : session.heap.size (ptr - 32) ≤ roundRequest n.toNat ∨
      Full session.heap (roundRequest n.toNat)) :
    ∃ next cells', session.call (.realloc ptr n) = some next ∧ Sound start stop next cells' := by
  rw [sound.holds.full_iff] at careful
  obtain ⟨new, _, cells', called, holds, outcome⟩ :=
    sound.holds.realloc (sound.payload live) n.toNat_lt nonzero spares careful
  rw [Session.call, called]
  refine ⟨_, cells', rfl, holds, ?_⟩
  dsimp only
  cases outcome with
  | refused _ =>
    rw [if_pos ⟨rfl, fun zero => nonzero (by rw [zero]; rfl)⟩]
    exact sound.live
  | moved nonnull _ _ exchanged _ _ _ =>
    rw [if_neg (fun null => nonnull null.1), grant, if_neg nonnull]
    have exchangedAt := exchanged.map Prod.fst
    simp only [map_cons, ← usedAt_eq] at exchangedAt
    have before := (perm_cons_erase live).symm.trans sound.live
    have both := ((List.Perm.swap _ _ _).trans (before.cons new)).trans exchangedAt
    exact both.cons_inv

theorem Sound.realloc (confined : Confined session (.realloc ptr n)) :
    ∃ next cells', session.call (.realloc ptr n) = some next ∧ Sound start stop next cells' := by
  obtain ⟨careful, spares⟩ := confined
  by_cases zero : n = 0
  · subst zero
    -- a request of zero bytes is `free`
    obtain ⟨next, cells', called, sound'⟩ := sound.free (careful.imp_right And.left)
    cases called
    exact ⟨_, cells', rfl, sound'⟩
  · have nonzero : n.toNat ≠ 0 := fun isZero => zero (UInt64.toNat_inj.mp isZero)
    replace spares := spares.resolve_left nonzero
    rcases careful with rfl | ⟨live, fits⟩
    · exact sound.realloc_null nonzero spares
    · exact sound.realloc_live live nonzero spares (fits.resolve_left zero)

end

theorem Sound.call (sound : Sound start stop session cells) {call : Call}
    (confined : Confined session call) :
    ∃ next cells', session.call call = some next ∧ Sound start stop next cells' := by
  cases call with
  | malloc n => exact sound.malloc confined
  | free ptr => exact sound.free confined.1
  | realloc ptr n => exact sound.realloc confined
  | calloc _ _ => exact sound.calloc confined
  | store ptr _ _ => exact sound.store confined.1

theorem confined_run (bytes : Buf) (pos : 0 < start) (region : start + (32 + 0x100000) ≤ 2 ^ 39)
    (low : stop ≤ 2 ^ 39) {permit : Session → Call → Prop}
    (confined : ∀ session cells call, Sound start stop session cells → permit session call →
      Confined session call)
    {calls : List Call}
    (permitted : Permitted Session.call permit (initial bytes start stop) calls) :
    ∃ session cells, drive Session.call (initial bytes start stop) calls = some session ∧
      Sound start stop session cells := by
  have total : ∀ session call, (∃ cells, Sound start stop session cells) → permit session call →
      ∃ next, session.call call = some next ∧ ∃ cells, Sound start stop next cells := by
    intro session call ⟨cells, sound⟩ permitted
    obtain ⟨next, cells', called, sound'⟩ := sound.call (confined _ _ _ sound permitted)
    exact ⟨next, called, cells', sound'⟩
  obtain ⟨session, driven, cells, sound⟩ := drive_total total calls _
    ⟨_, holds_mallocInit bytes pos region low, .nil⟩ permitted
  exact ⟨session, cells, driven, sound⟩

end Sound

/-! ## The contract -/

/-- No byte of the payload behind a pointer has changed. -/
def Untouched (heap heap' : LibcHeap) (ptr : Nat) : Prop :=
  SamePayload heap heap' (ptr, heap.size (ptr - 32))

/-- What the caller of `realloc(ptr, n)` relies on. -/
inductive Contract (session : Session) (ptr n : Nat) : Prop where
  | refused {heap' : LibcHeap} (returned : realloc session.heap ptr n = some (0, heap'))
      (kept : ∀ other ∈ session.live, Untouched session.heap heap' other)
  | moved {new : Nat} {heap' plain : LibcHeap} {blocks : List Nat}
      (returned : realloc session.heap ptr n = some (new, heap')) (nonnull : new ≠ 0)
      /- The payload has moved. -/
      (copied : ∀ i < min (session.heap.size (ptr - 32)) n,
        heap'.bytes (new + i) = session.heap.bytes (ptr + i))
      /- No block in use starts in front of the old pointer. -/
      (walk : Walk heap'.header heap'.first blocks)
      (freed : ∀ b ∈ blocks, b + 32 = ptr → heap'.used b = 0)
      /- The headers are those that allocation and release leave by themselves. -/
      (allocated : malloc session.heap n = some (new, plain))
      (walkPlain : Walk (free plain ptr).header (free plain ptr).first blocks)
      (headers : ∀ b ∈ blocks, heap'.header b = (free plain ptr).header b)
      (kept : ∀ other ∈ session.live, other ≠ ptr → Untouched session.heap heap' other)

theorem Sound.contract {n : Nat} (sound : Sound start stop session cells) (live : ptr ∈ session.live)
    (word : n < 2 ^ 64) (nonzero : n ≠ 0) (spares : Spares session.heap (roundRequest n))
    (careful : session.heap.size (ptr - 32) ≤ roundRequest n ∨ Full session.heap (roundRequest n)) :
    Contract session ptr n := by
  rw [sound.holds.full_iff] at careful
  have payload := sound.payload live
  obtain ⟨_, _, _, called, holds, outcome⟩ :=
    sound.holds.realloc payload word nonzero spares careful
  cases outcome with
  | refused kept => exact .refused called fun other isLive => kept _ (sound.payload isLive)
  | moved nonnull allocated released _ gone copied kept =>
    refine .moved called nonnull ?_ holds.walk ?_ allocated released.walk ?_ ?_
    · exact fun i inside => copied i (Nat.lt_of_lt_of_le inside (Nat.min_le_left _ _))
    · rintro b isHeader rfl
      by_contra inUse
      apply gone
      apply holds.laid.inUse isHeader
      rw [holds.header isHeader]
      simpa [LibcHeap.header] using inUse
    · exact fun b isHeader => holds.unique released isHeader
    · exact fun other isLive ne => kept _ (sound.payload isLive) ne

/-- In every run of a program that never moves a payload to a smaller block and stays inside of
the mapped bytes, and for every pointer it holds, `realloc` keeps its contract on such a
request. -/
theorem realloc_contract (bytes : Buf) (start : Nat) (positive : 0 < start)
    (region : start + (32 + 0x100000) ≤ 2 ^ 39) (calls : List Call)
    (confined : Permitted Session.call Confined (initial bytes start (start + 0x100000)) calls) :
    ∃ session, drive Session.call (initial bytes start (start + 0x100000)) calls = some session ∧
      ∀ ptr ∈ session.live, ∀ n : UInt64, 0 < n → Spares session.heap (roundRequest n.toNat) →
        session.heap.size (ptr - 32) ≤ roundRequest n.toNat ∨
          Full session.heap (roundRequest n.toNat) →
        Contract session ptr n.toNat := by
  obtain ⟨session, _, driven, sound⟩ := confined_run bytes positive region (by omega)
    (fun _ _ _ _ => id) confined
  refine ⟨session, driven, fun ptr live n nonzero spares fits => ?_⟩
  exact sound.contract live n.toNat_lt (Nat.ne_of_gt nonzero) spares fits

theorem spares_mallocInit (bytes : Buf) (pos : 0 < start)
    (region : start + (32 + 0x100000) ≤ 2 ^ 39) {n : Nat} (small : 64 + n ≤ 0x100000) :
    Spares (initial bytes start (start + 0x100000)).heap n := by
  have holds := holds_mallocInit bytes pos region (by omega : start + 0x100000 ≤ 2 ^ 39)
  refine ⟨_, holds.walk, fun b isHeader _ _ => ?_⟩
  obtain rfl : b = start := by simpa [addresses] using isHeader
  have limit : (initial bytes b (b + 0x100000)).heap.stop = b + 0x100000 := rfl
  omega

/-- The only block in use is enlarged. -/
theorem realloc_contract_enlarged :
    ∃ session, drive Session.call (initial (fun _ => 0) 0x100000 0x200000) [.malloc 64] =
        some session ∧ 0x100020 ∈ session.live ∧ Contract session 0x100020 100 := by
  obtain ⟨session, driven, contract⟩ := realloc_contract (fun _ => 0) 0x100000 (by decide)
    (by decide) [.malloc 64]
    ⟨⟨trivial, .inr (spares_mallocInit _ (by decide) (by decide) (by decide))⟩,
      fun _ _ => trivial⟩
  have facts : (drive Session.call (initial (fun _ => 0) 0x100000 0x200000) [.malloc 64]).map
      (fun session => (session.live, [session.heap.first, session.heap.stop],
        [0x100000, 0x100060].map session.heap.header)) =
      some ([0x100020], [0x100000, 0x200000],
        [⟨0x100060, 0, true, 64⟩, ⟨0, 0x100000, false, 0xfffa0⟩]) := by
    decide +kernel
  simp only [driven, map_some, some.injEq, Prod.mk.injEq, map_cons, map_nil, cons.injEq,
    and_true] at facts
  obtain ⟨live, ⟨first, stop⟩, used, rest⟩ := facts
  refine ⟨session, driven, by simp [live], contract _ (by simp [live]) 100 (by decide) ?_ ?_⟩
  · refine ⟨[0x100000, 0x100060], ?_, ?_⟩
    · rw [first]
      refine .visit (by decide) ?_
      rw [used]
      refine .visit (by decide) ?_
      rw [rest]
      exact .stop
    · rw [LibcHeap.header, Block.mk.injEq] at used rest
      simp [stop, used.2.2.2, rest.2.2.2, roundRequest, addWord]
  · rw [LibcHeap.header, Block.mk.injEq] at used
    exact .inl (used.2.2.2 ▸ by decide)

/-- In every run of a confined program the payloads that it holds are those of blocks in use, lie
inside of the bytes that `__malloc_init` mapped, and do not overlap. -/
theorem payloads_held_apart (bytes : Buf) (start : Nat) (positive : 0 < start)
    (region : start + (32 + 0x100000) ≤ 2 ^ 39) (calls : List Call)
    (confined : Permitted Session.call Confined (initial bytes start (start + 0x100000)) calls) :
    ∃ session, drive Session.call (initial bytes start (start + 0x100000)) calls = some session ∧
      ∀ ptr ∈ session.live, session.heap.used (ptr - 32) ≠ 0 ∧ start + 32 ≤ ptr ∧
        ptr + session.heap.size (ptr - 32) ≤ start + 0x100000 ∧
        ∀ other ∈ session.live, ptr < other → ptr + session.heap.size (ptr - 32) ≤ other := by
  obtain ⟨session, _, driven, sound⟩ := confined_run bytes positive region (by omega)
    (fun _ _ _ _ => id) confined
  refine ⟨session, driven, fun ptr live => ?_⟩
  have payload := sound.payload live
  refine ⟨(sound.holds.size payload).2.2, (payloads_bound payload).1,
    sound.holds.inside _ payload, fun other isLive before => ?_⟩
  have apart := payloads_apart payload (sound.payload isLive) (Nat.ne_of_lt before)
  omega

/-- A program that makes one request. -/
theorem payloads_held_apart_one :
    ∃ session, drive Session.call (initial (fun _ => 0) 0x100000 0x200000) [.malloc 64] =
        some session ∧ ∀ ptr ∈ session.live, session.heap.used (ptr - 32) ≠ 0 := by
  obtain ⟨session, driven, held⟩ := payloads_held_apart (fun _ => 0) 0x100000 (by decide)
    (by decide) [.malloc 64]
    ⟨⟨trivial, .inr (spares_mallocInit _ (by decide) (by decide) (by decide))⟩,
      fun _ _ => trivial⟩
  exact ⟨session, driven, fun ptr live => (held ptr live).1⟩

/-- After `malloc(64)`, `realloc` to 32 bytes returns a block behind which the header of the
rest of the heap has been overwritten with the payload. -/
theorem realloc_overruns :
    ∃ session, drive Session.call (initial (fun _ => 0) 0x100000 0x200000) [.malloc 64] =
        some session ∧ 0x100020 ∈ session.live ∧ ¬ Contract session 0x100020 32 := by
  have facts : (drive Session.call (initial (fun _ => 0) 0x100000 0x200000) [.malloc 64]).map
      (fun session => (session.live,
        (malloc session.heap 32).map fun (_, heap) => (free heap 0x100020).header 0x1000a0,
        (realloc session.heap 0x100020 32).map fun (new, heap) =>
          ([new, heap.first], [0x100000, 0x100060, 0x1000a0].map heap.header))) =
      some ([0x100020], some ⟨0, 0x100060, false, 0xfff60⟩,
        some ([0x100080, 0x100000],
          [⟨0x100060, 0, false, 64⟩, ⟨0x1000a0, 0x100000, true, 32⟩, ⟨0, 0, false, 0⟩])) := by
    decide +kernel
  obtain ⟨session, driven, facts⟩ := map_eq_some_iff.mp facts
  simp only [Prod.mk.injEq] at facts
  obtain ⟨live, allocation, overrun⟩ := facts
  refine ⟨session, driven, by simp [live], fun contract => ?_⟩
  cases contract with
  | refused returned _ => simp [returned] at overrun
  | moved returned _ _ walk _ allocated _ headers _ =>
    simp only [allocated, map_some, some.injEq] at allocation
    simp only [returned, map_some, some.injEq, Prod.mk.injEq, map_cons, cons.injEq] at overrun
    obtain ⟨⟨-, first, -⟩, second, third, cleared, -⟩ := overrun
    -- the walk visits the overwritten header
    rw [first] at walk
    cases walk with
    | visit _ walk =>
    rw [second] at walk
    cases walk with
    | visit _ walk =>
    rw [third] at walk
    cases walk with
    | visit _ _ =>
      have header := headers 0x1000a0 (by simp)
      rw [header, allocation] at cleared
      exact absurd cleared (by decide)

end Micro.Libc
