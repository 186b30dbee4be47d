/-!
# Buffers that are used again

A script is put together in a buffer. A buffer that is no longer needed waits in a pool for the next
script, unless it has grown too large or enough others wait already. Several callers may share a
pool; each of them takes a buffer, appends to it, and gives it back in two moves: it first clears
the buffer and then hands it to the pool, and other callers may move in between.
-/

namespace ShellCompletion.Script

/-- A buffer. -/
structure Buffer where
  /-- What tells it from all other buffers. -/
  id : Nat
  /-- What has been appended to it. -/
  text : String := ""
  /-- The number of bytes it has room for. -/
  capacity : Nat
  deriving DecidableEq, Repr

namespace Buffer

/-- Appends a text. The buffer may grow to `room` bytes, and grows further if the text needs it. -/
def append (buffer : Buffer) (text : String) (room : Nat) : Buffer :=
  let whole := buffer.text ++ text
  { buffer with
    text := whole
    capacity := max buffer.capacity (max room whole.utf8ByteSize) }

/-- Appends a text. A buffer that is too small for it gets twice its room. -/
def push (buffer : Buffer) (text : String) : Buffer :=
  let whole := (buffer.text ++ text).utf8ByteSize
  buffer.append text (if whole ≤ buffer.capacity then buffer.capacity else 2 * buffer.capacity)

/-- Takes everything out of a buffer, which keeps its room. -/
def clear (buffer : Buffer) : Buffer :=
  { buffer with text := "" }

end Buffer

/-- A pool of buffers. -/
structure BufferPool where
  /-- A buffer with more room than this is not kept. -/
  maxCapacity : Nat
  /-- The greatest number of buffers that wait. -/
  maxIdle : Nat
  /-- The buffers that wait, the last one given back first. -/
  idle : List Buffer := []
  /-- The number of buffers made so far. -/
  made : Nat := 0
  deriving DecidableEq, Repr

namespace BufferPool

/-- The room of a new buffer. -/
def initialCapacity : Nat :=
  16 * 1024

/-- The pool of the scripts. -/
def forScripts : BufferPool :=
  { maxCapacity := 256 * 1024, maxIdle := 16 }

/-- Takes the buffer that was given back last, or makes one if none waits. -/
def acquire (pool : BufferPool) : Buffer × BufferPool :=
  match pool.idle with
  | buffer :: rest => (buffer, { pool with idle := rest })
  | [] => ({ id := pool.made, capacity := initialCapacity }, { pool with made := pool.made + 1 })

/-- Clears a buffer that is no longer needed, unless it has grown too large to be kept. -/
def retire? (pool : BufferPool) (buffer : Buffer) : Option Buffer :=
  if pool.maxCapacity < buffer.capacity then none else some buffer.clear

/-- Lets a buffer wait, unless enough others do. -/
def giveBack (pool : BufferPool) (buffer : Buffer) : BufferPool :=
  if pool.idle.length < pool.maxIdle then { pool with idle := buffer :: pool.idle } else pool

/-- Gives a buffer back with no other caller in between. -/
def release (pool : BufferPool) (buffer : Buffer) : BufferPool :=
  match pool.retire? buffer with
  | some cleared => pool.giveBack cleared
  | none => pool

end BufferPool

/-! ## Callers that share a pool -/

/-- How a caller holds a buffer. -/
inductive Holding where
  /-- It appends to it. -/
  | inUse (buffer : Buffer)
  /-- It has cleared it and will give it back. -/
  | retired (buffer : Buffer)
  deriving DecidableEq, Repr

/-- The buffer that is held. -/
def Holding.buffer : Holding → Buffer
  | inUse buffer | retired buffer => buffer

/-- A move of a caller. -/
inductive PoolMove where
  /-- Takes a buffer. -/
  | acquire
  /-- Appends a text to its buffer, which may grow. -/
  | append (text : String) (room : Nat)
  /-- Clears its buffer, or drops it if it is too large. -/
  | retire
  /-- Hands its cleared buffer to the pool. -/
  | giveBack
  deriving DecidableEq, Repr

/-- A pool and what its callers hold. -/
structure SharedPool where
  /-- The pool. -/
  pool : BufferPool
  /-- What each caller holds, if it holds a buffer. -/
  held : Nat → Option Holding := fun _ => none

namespace SharedPool

/-- What the callers hold after a change for one of them. -/
def hold (shared : SharedPool) (caller : Nat) (holding : Option Holding) : Nat → Option Holding :=
  fun other => if other = caller then holding else shared.held other

/-- A caller moves. A move that does not fit what the caller holds changes nothing. -/
def move (shared : SharedPool) (caller : Nat) (poolMove : PoolMove) : SharedPool :=
  match poolMove, shared.held caller with
  | .acquire, none =>
    let (buffer, pool) := shared.pool.acquire
    { pool, held := shared.hold caller (some (.inUse buffer)) }
  | .append text room, some (.inUse buffer) =>
    { shared with held := shared.hold caller (some (.inUse (buffer.append text room))) }
  | .retire, some (.inUse buffer) =>
    { shared with held := shared.hold caller ((shared.pool.retire? buffer).map .retired) }
  | .giveBack, some (.retired buffer) =>
    { pool := shared.pool.giveBack buffer, held := shared.hold caller none }
  | _, _ => shared

/-- Callers move one after the other. -/
def moves (shared : SharedPool) (steps : List (Nat × PoolMove)) : SharedPool :=
  steps.foldl (fun shared step => shared.move step.1 step.2) shared

end SharedPool

end ShellCompletion.Script
