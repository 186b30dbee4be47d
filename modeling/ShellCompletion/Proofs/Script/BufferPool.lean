import Mathlib.Data.List.Nodup
import ShellCompletion.Script.Generate

/-!
# Callers do not see each other's texts

Whoever takes a buffer from a pool must find it empty, whatever others have written into it before,
and must be the only one to write into it. Both hold whatever the order of moves, for one reason: a
buffer is in one place only, with one caller or among those that wait, and it gets to the latter
only after it has been cleared.

* **One move** (`Sound.move`): what is sound stays sound. A caller changes its own buffer
  (`Sound.hold`), takes one that waits or a new one (`Sound.take`, `Sound.make`), or lets one wait
  (`Sound.wait`).
* **A run** (`sound_moves`), by induction over the moves.
* **A call** (`held_moves_call`): between its moves any others may come; its text is its own.

Main statement: `callers_apart`, for every pool and all orders of moves.
-/

namespace ShellCompletion.Script

/-! ### Sound states -/

/-- A buffer that may wait: it is empty, and not too large. -/
def BufferPool.Ready (pool : BufferPool) (buffer : Buffer) : Prop :=
  buffer.text = "" ∧ buffer.capacity ≤ pool.maxCapacity

/-- With no idle buffer a new one is made. -/
theorem BufferPool.acquire_of_nil {pool : BufferPool} (h : pool.idle = []) :
    pool.acquire =
      ({ id := pool.made, capacity := initialCapacity }, { pool with made := pool.made + 1 }) := by
  unfold acquire
  split
  next hidle => exact absurd (h.symm.trans hidle) (by simp)
  next => rfl

/-- An idle buffer is taken before a new one is made. -/
theorem BufferPool.acquire_of_cons {pool : BufferPool} {buffer : Buffer} {rest : List Buffer}
    (h : pool.idle = buffer :: rest) : pool.acquire = (buffer, { pool with idle := rest }) := by
  simp only [acquire, h]

namespace SharedPool

variable {shared : SharedPool} {caller other : Nat} {buffer : Buffer} {holding : Holding}

/-- A state in which every buffer is in one place, and those that wait are ready. -/
structure Sound (shared : SharedPool) : Prop where
  /-- Not too many wait. -/
  idle_le : shared.pool.idle.length ≤ shared.pool.maxIdle
  /-- Those that wait are ready. -/
  idle_ready : ∀ buffer ∈ shared.pool.idle, shared.pool.Ready buffer
  /-- So are those that will be given back. -/
  retired_ready : ∀ {caller buffer}, shared.held caller = some (.retired buffer) →
    shared.pool.Ready buffer
  /-- No buffer waits twice. -/
  idle_nodup : (shared.pool.idle.map (·.id)).Nodup
  /-- No buffer is held twice. -/
  held_apart : ∀ {caller other holding holding'}, shared.held caller = some holding →
    shared.held other = some holding' → holding.buffer.id = holding'.buffer.id → caller = other
  /-- No buffer that is held waits. -/
  held_not_idle : ∀ {caller holding}, shared.held caller = some holding →
    holding.buffer.id ∉ shared.pool.idle.map (·.id)
  /-- Those that wait have been made. -/
  idle_made : ∀ id ∈ shared.pool.idle.map (·.id), id < shared.pool.made
  /-- So have those that are held. -/
  held_made : ∀ {caller holding}, shared.held caller = some holding →
    holding.buffer.id < shared.pool.made

/-- At first nothing is held and nothing waits. -/
theorem sound_new (maxCapacity maxIdle : Nat) :
    Sound { pool := { maxCapacity, maxIdle } } where
  idle_le := Nat.zero_le maxIdle
  idle_ready _ h := absurd h List.not_mem_nil
  retired_ready h := absurd h (by simp)
  idle_nodup := .nil
  held_apart h := absurd h (by simp)
  held_not_idle h := absurd h (by simp)
  idle_made _ h := absurd h List.not_mem_nil
  held_made h := absurd h (by simp)

/-- The caller holds what it has been given. -/
theorem hold_self (shared : SharedPool) (caller : Nat) (holding : Option Holding) :
    shared.hold caller holding caller = holding :=
  if_pos rfl

/-- What other callers hold does not change. -/
theorem hold_of_ne (holding : Option Holding) (hne : other ≠ caller) :
    shared.hold caller holding other = shared.held other :=
  if_neg hne

/-- What is held after a change is what has been changed or what was held before. -/
theorem hold_eq_some {new : Option Holding} (h : shared.hold caller new other = some holding) :
    (other = caller ∧ new = some holding) ∨ (other ≠ caller ∧ shared.held other = some holding) := by
  by_cases heq : other = caller
  · subst heq
    rw [hold_self] at h
    exact .inl ⟨rfl, h⟩
  · rw [hold_of_ne new heq] at h
    exact .inr ⟨heq, h⟩

/-- A caller changes the buffer that it holds, or holds none any more. -/
theorem Sound.hold (h : shared.Sound) {new : Option Holding}
    (hsame : ∀ holding, new = some holding →
      ∃ old, shared.held caller = some old ∧ holding.buffer.id = old.buffer.id)
    (hready : ∀ buffer, new = some (.retired buffer) → shared.pool.Ready buffer) :
    Sound { shared with held := shared.hold caller new } := by
  -- whoever holds a buffer afterwards held it before
  have hback : ∀ {other holding}, shared.hold caller new other = some holding →
      ∃ old, shared.held other = some old ∧ holding.buffer.id = old.buffer.id := by
    intro other holding hheld
    rcases hold_eq_some hheld with ⟨rfl, hnew⟩ | ⟨-, hold⟩
    · exact hsame holding hnew
    · exact ⟨holding, hold, rfl⟩
  refine { h with
    retired_ready := ?_, held_apart := ?_, held_not_idle := ?_, held_made := ?_ }
  · intro other buffer hheld
    rcases hold_eq_some hheld with ⟨-, hnew⟩ | ⟨-, hold⟩
    · exact hready buffer hnew
    · exact h.retired_ready hold
  · intro first second holding holding' hfirst hsecond hid
    obtain ⟨old, hold, heq⟩ := hback hfirst
    obtain ⟨old', hold', heq'⟩ := hback hsecond
    exact h.held_apart hold hold' (by rw [← heq, ← heq', hid])
  · intro other holding hheld
    obtain ⟨old, hold, heq⟩ := hback hheld
    rw [heq]
    exact h.held_not_idle hold
  · intro other holding hheld
    obtain ⟨old, hold, heq⟩ := hback hheld
    rw [heq]
    exact h.held_made hold

/-- A caller that holds no buffer takes one that nobody holds and that does not wait. -/
theorem Sound.give (h : shared.Sound) (hfree : ∀ {other holding}, shared.held other = some holding →
      holding.buffer.id ≠ buffer.id)
    (hidle : buffer.id ∉ shared.pool.idle.map (·.id)) (hmade : buffer.id < shared.pool.made) :
    Sound { shared with held := shared.hold caller (some (.inUse buffer)) } := by
  refine { h with
    retired_ready := ?_, held_apart := ?_, held_not_idle := ?_, held_made := ?_ }
  · intro other retired hheld
    rcases hold_eq_some hheld with ⟨-, hnew⟩ | ⟨-, hold⟩
    · exact absurd hnew (by simp)
    · exact h.retired_ready hold
  · intro first second holding holding' hfirst hsecond hid
    -- two holdings of one buffer: the new one was free, so neither or both are new
    rcases hold_eq_some hfirst with ⟨rfl, hnew⟩ | ⟨-, hold⟩
    · rcases hold_eq_some hsecond with ⟨rfl, -⟩ | ⟨-, hold'⟩
      · rfl
      · obtain rfl := Option.some.inj hnew
        exact absurd hid.symm (hfree hold')
    · rcases hold_eq_some hsecond with ⟨rfl, hnew'⟩ | ⟨-, hold'⟩
      · obtain rfl := Option.some.inj hnew'
        exact absurd hid (hfree hold)
      · exact h.held_apart hold hold' hid
  · intro other holding hheld
    rcases hold_eq_some hheld with ⟨-, hnew⟩ | ⟨-, hold⟩
    · obtain rfl := Option.some.inj hnew
      exact hidle
    · exact h.held_not_idle hold
  · intro other holding hheld
    rcases hold_eq_some hheld with ⟨-, hnew⟩ | ⟨-, hold⟩
    · obtain rfl := Option.some.inj hnew
      exact hmade
    · exact h.held_made hold

/-- The first buffer that waits is taken out. -/
theorem Sound.take {rest : List Buffer} (h : shared.Sound)
    (hidle : shared.pool.idle = buffer :: rest) :
    Sound { shared with pool := { shared.pool with idle := rest } } := by
  have hsub : ∀ id ∈ rest.map (·.id), id ∈ shared.pool.idle.map (·.id) := by
    intro id hid
    rw [hidle]
    exact List.mem_cons_of_mem _ hid
  have hle := h.idle_le
  have hnodup := h.idle_nodup
  rw [hidle] at hle hnodup
  exact {
    idle_le := Nat.le_of_succ_le hle
    idle_ready := fun other hmem => h.idle_ready other (hidle ▸ List.mem_cons_of_mem buffer hmem)
    retired_ready := h.retired_ready
    idle_nodup := (List.nodup_cons.mp hnodup).2
    held_apart := h.held_apart
    held_not_idle := fun hheld hmem => h.held_not_idle hheld (hsub _ hmem)
    idle_made := fun id hmem => h.idle_made id (hsub id hmem)
    held_made := h.held_made }

/-- One more buffer is made. -/
theorem Sound.make (h : shared.Sound) :
    Sound { shared with pool := { shared.pool with made := shared.pool.made + 1 } } where
  idle_le := h.idle_le
  idle_ready := h.idle_ready
  retired_ready := h.retired_ready
  idle_nodup := h.idle_nodup
  held_apart := h.held_apart
  held_not_idle := h.held_not_idle
  idle_made id hmem := Nat.lt_succ_of_lt (h.idle_made id hmem)
  held_made hheld := Nat.lt_succ_of_lt (h.held_made hheld)

/-- A buffer that nobody holds and that is ready is given back. -/
theorem Sound.wait (h : shared.Sound) (hready : shared.pool.Ready buffer)
    (hfree : ∀ {other holding}, shared.held other = some holding → holding.buffer.id ≠ buffer.id)
    (hidle : buffer.id ∉ shared.pool.idle.map (·.id)) (hmade : buffer.id < shared.pool.made) :
    Sound { shared with pool := shared.pool.giveBack buffer } := by
  unfold BufferPool.giveBack
  split
  next hroom =>
    refine { h with
      idle_le := hroom, idle_ready := ?_, idle_nodup := ?_, held_not_idle := ?_, idle_made := ?_ }
    · intro other hmem
      rcases List.mem_cons.mp hmem with rfl | hmem
      · exact hready
      · exact h.idle_ready other hmem
    · exact List.nodup_cons.mpr ⟨hidle, h.idle_nodup⟩
    · intro other holding hheld hmem
      rcases List.mem_cons.mp hmem with heq | hmem
      · exact hfree hheld heq
      · exact h.held_not_idle hheld hmem
    · intro id hmem
      rcases List.mem_cons.mp hmem with rfl | hmem
      · exact hmade
      · exact h.idle_made id hmem
  next => exact h

/-! ### One move -/

/-- What a caller takes is empty, and nobody else holds it. -/
theorem Sound.acquire (h : shared.Sound) (hnone : shared.held caller = none) :
    ∃ buffer, (shared.move caller .acquire).held caller = some (.inUse buffer) ∧
      buffer.text = "" ∧
      (∀ other holding, shared.held other = some holding → holding.buffer.id ≠ buffer.id) ∧
      (shared.move caller .acquire).Sound := by
  simp only [move, hnone]
  cases hidle : shared.pool.idle with
  | nil =>
    -- a new buffer, with a number that no other has
    have hfree : ∀ other holding, shared.held other = some holding →
        holding.buffer.id ≠ shared.pool.made := fun _ _ hheld =>
      Nat.ne_of_lt (h.held_made hheld)
    have hnew : shared.pool.made ∉ shared.pool.idle.map (·.id) := fun hmem =>
      Nat.lt_irrefl _ (h.idle_made _ hmem)
    rw [BufferPool.acquire_of_nil hidle]
    refine ⟨_, hold_self shared caller _, rfl, hfree, ?_⟩
    refine h.make.give ?_ ?_ ?_
    · exact fun hheld => hfree _ _ hheld
    · exact hnew
    · exact Nat.lt_succ_self shared.pool.made
  | cons buffer rest =>
    have hmem : buffer ∈ shared.pool.idle := hidle ▸ List.mem_cons_self
    have hid : buffer.id ∈ shared.pool.idle.map (·.id) := List.mem_map_of_mem hmem
    have hfree : ∀ other holding, shared.held other = some holding →
        holding.buffer.id ≠ buffer.id := by
      intro other holding hheld heq
      exact h.held_not_idle hheld (heq ▸ hid)
    have hnodup := h.idle_nodup
    rw [hidle, List.map_cons, List.nodup_cons] at hnodup
    rw [BufferPool.acquire_of_cons hidle]
    refine ⟨buffer, hold_self shared caller _, (h.idle_ready buffer hmem).1, hfree, ?_⟩
    exact (h.take hidle).give (fun hheld => hfree _ _ hheld) hnodup.1 (h.idle_made _ hid)

/-- Sound states stay sound, whoever moves. -/
theorem Sound.move (h : shared.Sound) (caller : Nat) (poolMove : PoolMove) :
    (shared.move caller poolMove).Sound := by
  unfold SharedPool.move
  split
  next hnone =>
    obtain ⟨_, -, -, -, hsound⟩ := h.acquire hnone
    simpa only [SharedPool.move, hnone] using hsound
  next hheld =>
    refine h.hold ?_ ?_
    · rintro holding ⟨⟩
      exact ⟨_, hheld, rfl⟩
    · rintro buffer ⟨⟩
  next hheld =>
    rw [BufferPool.retire?]
    split
    · exact h.hold (by simp) (by simp)
    next hsmall =>
      refine h.hold ?_ ?_
      · rintro holding ⟨⟩
        exact ⟨_, hheld, rfl⟩
      · rintro buffer ⟨⟩
        exact ⟨rfl, Nat.not_lt.mp hsmall⟩
  next hheld =>
    -- first the caller lets go of it, then it waits
    have hgone : Sound { shared with held := shared.hold caller none } :=
      h.hold (by simp) (by simp)
    refine hgone.wait (h.retired_ready hheld) ?_ (h.held_not_idle hheld) (h.held_made hheld)
    intro other holding hother heq
    rcases hold_eq_some hother with ⟨-, hnone⟩ | ⟨hne, hold⟩
    · exact absurd hnone (by simp)
    · exact hne (h.held_apart hold hheld heq)
  · exact h

/-- The pool is sound after any moves of any callers. -/
theorem sound_moves (h : shared.Sound) (steps : List (Nat × PoolMove)) :
    (shared.moves steps).Sound := by
  induction steps generalizing shared with
  | nil => exact h
  | cons step steps ih => exact ih (h.move step.1 step.2)

/-! ### A call -/

/-- What a caller does among the moves of all. -/
def movesOf (caller : Nat) (steps : List (Nat × PoolMove)) : List PoolMove :=
  (steps.filter (·.1 = caller)).map (·.2)

/-- The texts that are appended to a buffer one after the other, each with the room that it may grow
to. -/
def appends (pieces : List (String × Nat)) : List PoolMove :=
  pieces.map fun piece => .append piece.1 piece.2

/-- A move of the caller is one of its own. -/
theorem movesOf_cons_self (caller : Nat) (poolMove : PoolMove) (steps : List (Nat × PoolMove)) :
    movesOf caller ((caller, poolMove) :: steps) = poolMove :: movesOf caller steps := by
  simp [movesOf]

/-- A move of another caller is none of its own. -/
theorem movesOf_cons_of_ne {step : Nat × PoolMove} (hne : step.1 ≠ caller)
    (steps : List (Nat × PoolMove)) : movesOf caller (step :: steps) = movesOf caller steps := by
  simp [movesOf, hne]

/-- Where only one caller moves, all moves are its own. -/
theorem movesOf_map_self (caller : Nat) (poolMoves : List PoolMove) :
    movesOf caller (poolMoves.map fun poolMove => (caller, poolMove)) = poolMoves := by
  simp [movesOf, List.filter_map, Function.comp_def]

/-- A move of one caller does not touch what another holds. -/
theorem held_move_of_ne (poolMove : PoolMove) (hne : caller ≠ other) :
    (shared.move other poolMove).held caller = shared.held caller := by
  unfold move
  split
  · exact hold_of_ne _ hne
  · exact hold_of_ne _ hne
  · exact hold_of_ne _ hne
  · exact hold_of_ne _ hne
  · rfl

/-- A buffer in use has the text that its holder has appended, whatever others do meanwhile. -/
theorem held_moves_appends {steps : List (Nat × PoolMove)} {pieces : List (String × Nat)}
    (hheld : shared.held caller = some (.inUse buffer))
    (hsteps : movesOf caller steps = appends pieces) :
    ∃ filled, (shared.moves steps).held caller = some (.inUse filled) ∧
      filled.text = buffer.text ++ String.join (pieces.map (·.1)) := by
  induction steps generalizing shared buffer pieces with
  | nil =>
    have hpieces : pieces = [] := by simpa [movesOf, appends] using hsteps.symm
    subst hpieces
    exact ⟨buffer, hheld, by simp⟩
  | cons step steps ih =>
    obtain ⟨other, poolMove⟩ := step
    by_cases hown : other = caller
    · subst hown
      rw [movesOf_cons_self] at hsteps
      cases pieces with
      | nil => exact absurd hsteps (by simp [appends])
      | cons piece pieces =>
        obtain ⟨rfl, hrest⟩ := List.cons.inj hsteps
        have hnext : (shared.move other (.append piece.1 piece.2)).held other =
            some (.inUse (buffer.append piece.1 piece.2)) := by
          simp only [move, hheld, hold_self]
        obtain ⟨filled, hfilled, htext⟩ := ih hnext hrest
        refine ⟨filled, hfilled, ?_⟩
        rw [htext, List.map_cons, String.join_cons, ← String.append_assoc]
        rfl
    -- the move of another caller leaves what this one holds
    · rw [movesOf_cons_of_ne hown] at hsteps
      exact ih ((held_move_of_ne poolMove (Ne.symm hown)).trans hheld) hsteps

/-- One who takes a buffer and appends to it has in the end what it has appended and nothing
else. -/
theorem held_moves_call {steps : List (Nat × PoolMove)} {pieces : List (String × Nat)}
    (h : shared.Sound) (hnone : shared.held caller = none)
    (hsteps : movesOf caller steps = .acquire :: appends pieces) :
    ∃ filled, (shared.moves steps).held caller = some (.inUse filled) ∧
      filled.text = String.join (pieces.map (·.1)) := by
  induction steps generalizing shared with
  | nil => exact absurd hsteps (by simp [movesOf])
  | cons step steps ih =>
    obtain ⟨other, poolMove⟩ := step
    by_cases hown : other = caller
    · subst hown
      rw [movesOf_cons_self] at hsteps
      obtain ⟨rfl, hrest⟩ := List.cons.inj hsteps
      obtain ⟨buffer, hheld, hempty, -, -⟩ := h.acquire hnone
      obtain ⟨filled, hfilled, htext⟩ := held_moves_appends hheld hrest
      refine ⟨filled, hfilled, ?_⟩
      rw [htext, hempty, String.empty_append]
    · rw [movesOf_cons_of_ne hown] at hsteps
      exact ih (h.move other poolMove) ((held_move_of_ne poolMove (Ne.symm hown)).trans hnone) hsteps

/-! ### The bounds of a pool -/

/-- Giving a buffer back leaves the bound on idle buffers as it is. -/
@[simp]
theorem maxIdle_giveBack (pool : BufferPool) (buffer : Buffer) :
    (pool.giveBack buffer).maxIdle = pool.maxIdle := by
  unfold BufferPool.giveBack
  split <;> rfl

/-- Giving a buffer back leaves the bound on their room as it is. -/
@[simp]
theorem maxCapacity_giveBack (pool : BufferPool) (buffer : Buffer) :
    (pool.giveBack buffer).maxCapacity = pool.maxCapacity := by
  unfold BufferPool.giveBack
  split <;> rfl

/-- Taking a buffer leaves the bound on idle buffers as it is. -/
@[simp]
theorem maxIdle_acquire (pool : BufferPool) : pool.acquire.2.maxIdle = pool.maxIdle := by
  unfold BufferPool.acquire
  split <;> rfl

/-- Taking a buffer leaves the bound on their room as it is. -/
@[simp]
theorem maxCapacity_acquire (pool : BufferPool) :
    pool.acquire.2.maxCapacity = pool.maxCapacity := by
  unfold BufferPool.acquire
  split <;> rfl

/-- A move leaves both bounds of the pool as they are. -/
theorem bounds_move (shared : SharedPool) (caller : Nat) (poolMove : PoolMove) :
    (shared.move caller poolMove).pool.maxIdle = shared.pool.maxIdle ∧
      (shared.move caller poolMove).pool.maxCapacity = shared.pool.maxCapacity := by
  unfold move
  split <;> simp

/-- Moves in a row leave both bounds of the pool as they are. -/
theorem bounds_moves (shared : SharedPool) (steps : List (Nat × PoolMove)) :
    (shared.moves steps).pool.maxIdle = shared.pool.maxIdle ∧
      (shared.moves steps).pool.maxCapacity = shared.pool.maxCapacity := by
  induction steps generalizing shared with
  | nil => exact ⟨rfl, rfl⟩
  | cons step steps ih =>
    obtain ⟨hidle, hcapacity⟩ := bounds_move shared step.1 step.2
    rw [← hidle, ← hcapacity]
    exact ih (shared.move step.1 step.2)

end SharedPool

/-! ### Scripts from a pool -/

variable {executable : String} {root : Option Command} {shell : Shell} {tunables : Tunables}

/-- A pool whose waiting buffers are empty does not show in a script. -/
theorem map_generateIn {pool : BufferPool} (h : ∀ buffer ∈ pool.idle, buffer.text = "") :
    (generateIn pool executable root shell tunables).map (·.1) =
      generateWith executable root shell tunables := by
  have hempty : pool.acquire.1.text = "" := by
    unfold BufferPool.acquire
    split
    next buffer rest hidle => exact h buffer (hidle ▸ List.mem_cons_self)
    next => rfl
  unfold generateIn generateWith
  cases tunables.check with
  | error cause => rfl
  | ok _ =>
    show Except.ok (pool.acquire.1.push _).text = _
    rw [Buffer.push, Buffer.append, hempty, String.empty_append]
    rfl

/-- Tunables that pass the check give a script. -/
theorem generateWith_of_check (h : tunables.check = .ok ()) :
    generateWith executable root shell tunables =
      .ok (text shell (.ofRoot? root) (programName executable root) tunables) := by
  rw [generateWith, h]
  rfl

/-- A template with its placeholders filled in can be put together piece by piece. -/
theorem join_render (template : List Segment) (values : List (String × String)) :
    String.join (template.map fun segment => String.ofList (segment.render values)) =
      renderTemplate template values := by
  rw [renderTemplate]
  induction template with
  | nil => rfl
  | cons segment rest ih =>
    rw [List.map_cons, String.join_cons, ih, List.flatMap_cons, String.ofList_append]

/-- The script for Bash is its template with the slots filled in. -/
theorem text_bash (model : Model) (program : String) (tunables : Tunables) :
    text .bash model program tunables =
      renderTemplate Bash.template (Bash.slotValues model program tunables) :=
  rfl

/-- **Buffers that are used again keep nothing.** Whatever the bounds of a pool and whatever its
callers have done, in any order: not too many buffers wait, those that do are empty and not too
large, no buffer is held twice or both held and waiting, and one that is taken is empty. So a script
from the pool is the script that needs no pool. That holds too if it is appended piece by piece and
others move in between. -/
theorem callers_apart (maxCapacity maxIdle : Nat) (steps : List (Nat × PoolMove)) :
    let shared := SharedPool.moves { pool := { maxCapacity, maxIdle } } steps
    (shared.pool.idle.length ≤ maxIdle ∧
      ∀ buffer ∈ shared.pool.idle, buffer.text = "" ∧ buffer.capacity ≤ maxCapacity) ∧
    (∀ caller holding, shared.held caller = some holding →
      (∀ other holding', shared.held other = some holding' → other ≠ caller →
        holding'.buffer.id ≠ holding.buffer.id) ∧
      ∀ buffer ∈ shared.pool.idle, buffer.id ≠ holding.buffer.id) ∧
    (∀ caller, shared.held caller = none → ∃ buffer,
      (shared.move caller .acquire).held caller = some (.inUse buffer) ∧ buffer.text = "") ∧
    ∀ executable root shell tunables,
      (generateIn shared.pool executable root shell tunables).map (·.1) =
        generateWith executable root shell tunables ∧
      ∀ caller pieces later, shared.held caller = none →
        generateWith executable root shell tunables = .ok (String.join (pieces.map (·.1))) →
        SharedPool.movesOf caller later = .acquire :: SharedPool.appends pieces →
        ∃ buffer, (shared.moves later).held caller = some (.inUse buffer) ∧
          generateWith executable root shell tunables = .ok buffer.text := by
  intro shared
  have hsound : shared.Sound := SharedPool.sound_moves (SharedPool.sound_new _ _) steps
  obtain ⟨hmaxIdle, hmaxCapacity⟩ :=
    SharedPool.bounds_moves { pool := { maxCapacity, maxIdle } } steps
  refine ⟨⟨?_, ?_⟩, ?_, ?_, ?_⟩
  · exact Nat.le_trans hsound.idle_le (Nat.le_of_eq hmaxIdle)
  · intro buffer hmem
    obtain ⟨hempty, hsmall⟩ := hsound.idle_ready buffer hmem
    exact ⟨hempty, Nat.le_trans hsmall (Nat.le_of_eq hmaxCapacity)⟩
  · intro caller holding hheld
    refine ⟨?_, ?_⟩
    · intro other holding' hother hne hid
      exact hne (hsound.held_apart hother hheld hid)
    · intro buffer hmem hid
      exact hsound.held_not_idle hheld (hid ▸ List.mem_map_of_mem hmem)
  · intro caller hnone
    obtain ⟨buffer, hheld, hempty, -⟩ := hsound.acquire hnone
    exact ⟨buffer, hheld, hempty⟩
  · intro executable root shell tunables
    refine ⟨map_generateIn fun buffer hmem => (hsound.idle_ready buffer hmem).1, ?_⟩
    intro caller pieces later hnone hpieces hlater
    -- other callers may move in between, but none of them touches the buffer
    obtain ⟨buffer, hheld, htext⟩ := SharedPool.held_moves_call hsound hnone hlater
    exact ⟨buffer, hheld, htext.symm ▸ hpieces⟩

/-- A caller gives its buffer back while another makes a script, and a third takes it and makes one
from the pieces of the template. -/
theorem callers_apart_reuse :
    let values := Bash.slotValues (.ofRoot? none) (programName "app" none) {}
    let pieces := Bash.template.map fun segment => (String.ofList (segment.render values), 0)
    let steps : List (Nat × PoolMove) := [(0, .acquire), (0, .append "left over" 9), (1, .acquire),
      (0, .retire), (1, .append "other" 0), (0, .giveBack)]
    let later := (2, .acquire) :: (1, .append "text" 0) ::
      (SharedPool.appends pieces).map fun poolMove => (2, poolMove)
    let start : SharedPool := { pool := { maxCapacity := 20000, maxIdle := 1 } }
    ((start.moves steps).pool.idle.map (·.id) = [0] ∧ (start.moves steps).held 2 = none ∧
      generateWith "app" none .bash {} = .ok (String.join (pieces.map (·.1))) ∧
      SharedPool.movesOf 2 later = .acquire :: SharedPool.appends pieces) ∧
    ∃ buffer, ((start.moves steps).moves later).held 2 = some (.inUse buffer) ∧
      generateWith "app" none .bash {} = .ok buffer.text := by
  intro values pieces steps later start
  have hscript : generateWith "app" none .bash {} = .ok (String.join (pieces.map (·.1))) := by
    have hjoin : String.join (pieces.map (·.1)) = renderTemplate Bash.template values := by
      rw [← join_render, List.map_map]
      simp only [Function.comp_def]
    rw [generateWith_of_check rfl, hjoin, text_bash]
  have hlater : SharedPool.movesOf 2 later = .acquire :: SharedPool.appends pieces := by
    rw [SharedPool.movesOf_cons_self, SharedPool.movesOf_cons_of_ne (by decide),
      SharedPool.movesOf_map_self]
  obtain ⟨-, -, -, hcalls⟩ := callers_apart 20000 1 steps
  obtain ⟨-, hcall⟩ := hcalls "app" none .bash {}
  have hnone : (start.moves steps).held 2 = none := rfl
  refine ⟨⟨by decide, hnone, hscript, hlater⟩, ?_⟩
  exact hcall 2 pieces later hnone hscript hlater

end ShellCompletion.Script
