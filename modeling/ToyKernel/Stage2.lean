import ToyKernel.Fat
import ToyKernel.Library.ByteMemory

namespace ToyKernel.Stage2

open Library ByteMemory

def MEMORY_LOAD_KERNEL : Nat := 0x30000
def MEMORY_LOAD_SIZE : Nat := 0x10000
def MEMORY_KERNEL_ADDR : Nat := 0x100000
def MEMORY_USERLAND_ADDR : Nat := 0x50000
def MEMORY_USERLAND_SIZE : Nat := 0x10000

-- The loop of memcpy up to `i`
def memcpyLoop (m : Memory) (dst src : Nat) : (i : Nat) → Memory
  | 0 => m
  | i + 1 =>
      let m := memcpyLoop m dst src i
      store8 m (u32 (dst + i)) (m (u32 (src + i)))

-- The length is a `uint16_t`.
def memcpy (m : Memory) (dst src num : Nat) : Memory := memcpyLoop m dst src (num % 65536)

-- The file system, and the memory the files are loaded to.
structure Loader where
  fat : Fat.State
  memory : Memory

namespace Loader

-- `FAT_Read(&disk, fd, MEMORY_LOAD_SIZE, KernelLoadBuffer)`
def readChunk (l : Loader) (fd : Fat.Handle) : Nat × Loader :=
  let (bytes, fat) := l.fat.read fd MEMORY_LOAD_SIZE
  (bytes.length,
    { fat, memory := copy l.memory MEMORY_LOAD_KERNEL bytes.length fun i => (bytes.getD i 0).toBitVec })

-- The load loop of start() at `buffer`, with `totalRead` bytes read; both files are
-- loaded by it. The result is the number of bytes read in all.
def load (fd : Fat.Handle) (buffer : Nat) : (rounds totalRead : Nat) → Loader →
    Except Fat.Stuck (Nat × Loader)
  | 0, _, _ => .error .outOfRounds
  | rounds + 1, totalRead, l =>
      let (readSize, l) := l.readChunk fd
      if readSize = 0 then .ok (totalRead, l)
      else
        load fd buffer rounds (u32 (totalRead + readSize))
          { l with memory := memcpy l.memory (u32 (buffer + totalRead)) MEMORY_LOAD_KERNEL readSize }

end Loader

end ToyKernel.Stage2
