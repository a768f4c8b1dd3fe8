import CharcoalOS.Arch.Start
import CharcoalOS.Hardware.RoundTrip
import CharcoalOS.Kernel.Booting

/-!
# From the reset to the shell

The boot code, the parser and the kernel, one after the other. A device tree is written in
memory, out of the way of the bss, and x0 holds its address at the reset: `reset_to_shell` is
what the first core makes of it.

The parser reads the memory that `kmain` finds: the kernel has its data and its stack apart
from the blob.
-/

namespace CharcoalOS.Platform

open Effect Effect.Code CharcoalOS.Kernel

/-- None of the `size` bytes at `a` is in the bss. -/
def OutOfBss (boot : Arch.Boot) (a : UInt64) (size : ℕ) : Prop :=
  ∀ i < size, ¬ (boot.bssStart ≤ a + UInt64.ofNat i ∧ a + UInt64.ofNat i < boot.bssEnd)

section Reset

variable {linked : Arch.Linked} {board : Arch.Board} {p n : Arch.Processor} {t : TreeSource}
  {dtb : UInt64}

/-- The clearing of the bss leaves what is out of its way. -/
theorem writtenAt_started (written : WrittenAt p.general.memory dtb t)
    (apart : OutOfBss linked.boot dtb t.flatten.length)
    (started : Arch.Started linked board p n) : WrittenAt n.general.memory dtb t := by
  refine ⟨?_, written.present, written.aligned, written.small, written.room⟩
  refine bytesFrom_eq_iff.mpr fun i less => ?_
  rw [started.memory, if_neg (apart i less)]
  exact bytesFrom_eq_iff.mp written.lies i less

/-- **From the reset to the shell.** The first core comes to `kmain` with the tree as it was
written, and every run of `kmain` from there records what the tree says, lists its memory and
goes on with a session, or, if the tree is not understood, halts after a message. -/
theorem reset_to_shell (first : linked.boot.mpidrEl1 &&& 3 = 0) (reset : board.Reset p)
    (written : WrittenAt p.general.memory (p.general.x 0) t)
    (apart : OutOfBss linked.boot (p.general.x 0) t.flatten.length) :
    ∃ pc n, linked.Reaches board ⟨0, p⟩ ⟨pc, n⟩ ∧
      (board.source linked)[pc]? = some (.call .kmain) ∧ Arch.Started linked board p n ∧
      ∀ (platform : Kernel.Platform) (kernelBoard : Kernel.Board) (env : Env)
        (received : List UInt8) r, env.memory = n.general.memory → env.Ready →
        platform.Synchronous →
        Runs (Interrupted platform) (kmain platform kernelBoard env (n.general.x 0))
          (.start received) r →
        Boots platform kernelBoard env (n.general.x 0) received r ∧
          ((parsed kernelBoard env (n.general.x 0)).outcome = .ok () ↔ t.Understood) ∧
          (t.Understood →
            t.RecordedIn .zero (parsed kernelBoard env (n.general.x 0)).state) := by
  obtain ⟨pc, n, started, run, there⟩ := Arch.first_core_reaches first reset
  refine ⟨pc, n, run, there.head, started, ?_⟩
  intro platform kernelBoard env received r memory ready synchronous runs
  have argument : n.general.x 0 = p.general.x 0 :=
    started.registers 0 (by decide) (by decide) (by decide)
  have there := writtenAt_started written apart started
  rw [← argument, ← memory] at there
  exact ⟨boots_of_runs synchronous ready there.noWrap runs,
    there.returned_iff .zero ready kernelBoard.hwInfoPlaced,
    there.recorded .zero ready kernelBoard.hwInfoPlaced⟩

end Reset

/-- A processor of `virt` after reset, with a small tree in memory and its address in x0. -/
def loadedProcessor : Arch.Processor :=
  ⟨⟨fun r => if r = 0 then Blob.address else 0, 0, smallSource.env.memory, false, false⟩,
    fun _ => 0, .el1, 0⟩

/-- It comes to a session, and `help` is typed. -/
theorem reset_to_shell_help :
    ∃ pc n, Arch.returningKernel.Reaches .virt ⟨0, loadedProcessor⟩ ⟨pc, n⟩ ∧
      let received : List UInt8 := [104, 101, 108, 112, 13]
      let env : Env := ⟨n.general.memory, false, 2 ^ 64⟩
      (parsed quietBoard env (n.general.x 0)).outcome = .ok () ∧
        Boots withoutZero quietBoard env (n.general.x 0) received
          (alone ((kmain withoutZero quietBoard env (n.general.x 0)).run (.start received))) := by
  have written : WrittenAt loadedProcessor.general.memory (loadedProcessor.general.x 0)
      smallSource := smallSource_written
  have apart : OutOfBss Arch.returningKernel.boot (loadedProcessor.general.x 0)
      smallSource.flatten.length := by
    unfold OutOfBss
    decide +kernel
  obtain ⟨pc, n, run, -, started, all⟩ := reset_to_shell
    (show Arch.returningKernel.boot.mpidrEl1 &&& 3 = 0 by decide)
    (show Arch.Board.virt.Reset loadedProcessor from ⟨rfl, rfl⟩) written apart
  have silent : nullReadsMemory n.general.memory = false := by
    rw [Bool.eq_false_iff]
    intro reads
    have first : n.general.memory 0 = 0x6d := (comparesEqual_iff.mp reads).2.2 0 (by decide)
    rw [started.memory, if_neg (by decide)] at first
    exact absurd first (by decide +kernel)
  obtain ⟨boots, returned, -⟩ := all withoutZero quietBoard ⟨n.general.memory, false, 2 ^ 64⟩ _ _
    rfl ⟨rfl, Nat.le_refl _, silent⟩ synchronous_withoutZero (runs_alone _ _ _)
  exact ⟨pc, n, run, returned.mpr smallSource_understood, boots⟩

end CharcoalOS.Platform
