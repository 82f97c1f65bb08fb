import Micro.Kern.Types
import Micro.Lib.Run
import Micro.Lib.Word

/-!
# Semaphores

A unit is counted while a thread holds it; `sem_signal` hands it on to the first waiting thread, or
else stops counting it.
-/

namespace Micro.Kern.Semaphore

open Lib

structure Sem where
  threads : KList ThreadId
  max : Nat
  cnt : Nat

def semCreate (max : Nat) : Sem := ⟨.create, max, 0⟩

/-- `sem_signal` and the thread it wakes; it fails where the list has none for its size. -/
def semSignal (sem : Sem) : Option (Sem × Option ThreadId) :=
  if sem.threads.size = 0 then some ({ sem with cnt := subWord sem.cnt 1 }, none)
  else
    match sem.threads.items with
    | [] => none
    | thread :: items => some ({ sem with threads := ⟨items, sem.threads.size - 1⟩ }, some thread)

/-- `sem_wait`, and whether the thread blocks. -/
def semWait (sem : Sem) (thread : ThreadId) : Sem × Bool :=
  if sem.cnt < sem.max then ({ sem with cnt := sem.cnt + 1 }, false)
  else ({ sem with threads := sem.threads.enqueue thread }, true)

inductive Call where
  | wait (thread : ThreadId)
  | signal (thread : ThreadId)

/-- The semaphore with the threads that hold a unit, and those that have blocked and been woken. -/
structure World where
  sem : Sem
  holders : List ThreadId := []
  blocked : List ThreadId := []
  admitted : List ThreadId := []

def World.call (world : World) : Call → Option World
  | .wait thread =>
      match semWait world.sem thread with
      | (sem, true) => some { world with sem, blocked := world.blocked ++ [thread] }
      | (sem, false) => some { world with sem, holders := thread :: world.holders }
  | .signal thread =>
      (semSignal world.sem).map fun (sem, woken) => { world with
        sem
        holders := woken.toList ++ world.holders.erase thread
        admitted := world.admitted ++ woken.toList }

/-- A thread signals only while it holds a unit. -/
def Holding (world : World) : Call → Prop
  | .wait _ => True
  | .signal thread => thread ∈ world.holders

/-- The units in use are counted, and threads wait only while none is left. -/
structure Admits (max : Nat) (world : World) : Prop where
  isMax : world.sem.max = max
  counted : world.holders.length = world.sem.cnt
  bounded : world.sem.cnt ≤ max
  waiting : world.sem.threads.items ≠ [] → world.sem.cnt = max
  size : world.sem.threads.size = world.sem.threads.items.length
  order : world.blocked = world.admitted ++ world.sem.threads.items

theorem Admits.call {limit : Nat} (word : limit < 2 ^ 64) (world : World) (call : Call)
    (admits : Admits limit world) (holding : Holding world call) :
    ∃ next, world.call call = some next ∧ Admits limit next := by
  obtain ⟨⟨⟨items, size⟩, max, cnt⟩, holders, blocked, admitted⟩ := world
  obtain ⟨isMax, counted, bounded, waiting, isSize, order⟩ := admits
  dsimp only at isMax counted bounded waiting isSize order
  subst isMax isSize order
  cases call with
  | wait thread =>
    by_cases free : cnt < max
    · simp only [World.call, semWait, free, if_true]
      refine ⟨_, rfl, rfl, congrArg (· + 1) counted, free, ?_, rfl, rfl⟩
      exact fun waits => absurd (waiting waits) (Nat.ne_of_lt free)
    · simp only [World.call, semWait, free, if_false]
      refine ⟨_, rfl, rfl, counted, bounded, ?_, ?_, ?_⟩
      · exact fun _ => Nat.le_antisymm bounded (Nat.le_of_not_lt free)
      · simp [KList.enqueue]
      · simp
  | signal thread =>
    have held : thread ∈ holders := holding
    have left := List.length_erase_of_mem held
    have positive := List.length_pos_of_mem held
    cases items with
    | nil =>
      have isCnt : subWord cnt 1 = cnt - 1 := subWord_of_le (by omega) (by omega)
      refine ⟨_, rfl, rfl, ?_, ?_, nofun, rfl, by simp⟩
      · simp only [isCnt, Option.toList, List.nil_append]
        omega
      · simp only [isCnt]
        omega
    | cons first items =>
      refine ⟨_, rfl, rfl, ?_, bounded, fun _ => waiting nofun, rfl, by simp⟩
      simp only [Option.toList, List.cons_append, List.nil_append, List.length_cons]
      omega

theorem admits_run (max : UInt64) (calls : List Call)
    (holding : Permitted World.call Holding { sem := semCreate max.toNat } calls) :
    ∃ world, drive World.call { sem := semCreate max.toNat } calls = some world ∧
      Admits max.toNat world := by
  apply drive_total (Admits.call max.toNat_lt) calls _ _ holding
  exact ⟨rfl, rfl, Nat.zero_le _, fun waits => absurd rfl waits, rfl, rfl⟩

theorem admits_run_three :
    ∃ world, drive World.call { sem := semCreate 1 } [.wait 7, .wait 8, .signal 7] = some world ∧
      Admits 1 world := by
  apply admits_run 1
  apply Permitted.cons rfl trivial
  apply Permitted.cons rfl trivial
  exact Permitted.cons rfl List.mem_cons_self trivial

end Micro.Kern.Semaphore
