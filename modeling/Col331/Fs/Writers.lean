import Col331.Fs.FileBytes
import Col331.Fs.Filewrite
import Col331.Logic.Reach

/-!
Processes that write to one `struct file` (`filewrite` of `file.c`, on a regular file).

A call is cut into chunks of at most `max` bytes, each written in a transaction of its own.  A process
reads and advances `f->off` in different steps, and writes the blocks of a chunk one after the other; it
holds the inode's lock all that time.

* `chunks src`: the chunks of a call.
* `WriterPc`, `Writers`: where a process is in `filewrite`, and the state.
* `Writers.step`: a process makes a call, or takes a step in its call.
-/

namespace Col331

open Fs

variable {V : Volume}

/-! ### Chunks -/

/-- The chunks of a call of `filewrite` with the bytes `src`. -/
def chunks (src : List UInt8) : List (List UInt8) :=
  if src = [] then [] else src.take maxChunk :: chunks (src.drop maxChunk)
termination_by src.length
decreasing_by
  have hpos : 0 < src.length := List.length_pos_iff.mpr ‹_›
  rw [List.length_drop]
  simp only [maxChunk, logSize, maxOpBlocks]
  omega

lemma chunks_nil : chunks [] = [] := by rw [chunks, if_pos rfl]

lemma chunks_of_ne {src : List UInt8} (h : src ≠ []) :
    chunks src = src.take maxChunk :: chunks (src.drop maxChunk) := by rw [chunks, if_neg h]

lemma flatten_chunks (src : List UInt8) : (chunks src).flatten = src := by
  induction src using chunks.induct with
  | case1 => rw [chunks_nil, List.flatten_nil]
  | case2 src h ih => rw [chunks_of_ne h, List.flatten_cons, ih, List.take_append_drop]

lemma length_of_mem_chunks {src x : List UInt8} (h : x ∈ chunks src) : x.length ≤ maxChunk := by
  induction src using chunks.induct with
  | case1 => simp [chunks_nil] at h
  | case2 src hne ih =>
    rw [chunks_of_ne hne, List.mem_cons] at h
    rcases h with rfl | h
    · exact List.length_take_le _ _
    · exact ih h

/-! ### The two parts of `writei` -/

namespace Fs

/-- One round of the loop of `writei`, for bytes of one block. -/
def writeBlock (k : Fin ninode) (off : ℕ) (xs : List UInt8) : Kern (Fs V) Unit := do
  let b ← bmap k (off / bsize)
  let bp ← bread b
  logWrite b (bp.splice (off % bsize) xs)

/-- What `writei` of `n` bytes does after its loop, which ends at `off`. -/
def writeEnd (k : Fin ninode) (n off : ℕ) : Kern (Fs V) Unit := do
  let ip := (← get).inode k
  if 0 < n ∧ off > ip.d.size.toNat then
    setSize k off
    iupdate k

end Fs

/-! ### The steps -/

/-- Where a process is in `filewrite`; `src` are the bytes from `addr + i` on. -/
inductive WriterPc where
  | idle
  /-- At the condition of the loop. -/
  | head (src : List UInt8)
  /-- After `begin_op`. -/
  | begun (src : List UInt8)
  /-- After `ilock`. -/
  | locked (src : List UInt8)
  /-- In the loop of `writei`, at `off` with the bytes `todo` left. -/
  | writing (src todo : List UInt8) (off : ℕ)
  /-- `writei` has returned `r`. -/
  | returned (src : List UInt8) (r : ℤ)
  /-- Before `iunlock`. -/
  | advanced (src : List UInt8) (r : ℤ)
  /-- Before `end_op`. -/
  | unlocked (src : List UInt8) (r : ℤ)
  deriving DecidableEq

/-- The processes that write to the file, and the calls made so far. -/
structure Writers (P : Type) (V : Volume) where
  fs : Fs V
  /-- `f->off`. -/
  off : UInt32
  pc : P → WriterPc
  calls : List (P × List UInt8)

/-- A process makes a call, or takes a step. -/
inductive WriterAct (P : Type) where
  | call (p : P) (src : List UInt8)
  | run (p : P)

namespace Writers

variable {P : Type} [DecidableEq P]

/-- The file is open at `off`, and no call has been made. -/
def init (fs : Fs V) (off : UInt32) : Writers P V := ⟨fs, off, fun _ => .idle, []⟩

/-- Process `p` goes to `pc`. -/
def goto (w : Writers P V) (p : P) (pc : WriterPc) : Writers P V :=
  { w with pc := Function.update w.pc p pc }

/-- Process `p` goes to `pc` after `x`. -/
def after (w : Writers P V) (p : P) (pc : WriterPc) (x : Kern (Fs V) Unit) :
    Except Stop (Writers P V) :=
  match x w.fs with
  | .ok ((), fs) => .ok { w.goto p pc with fs }
  | .error e => .error e

/-- The checks at the start of `writei`, with `f->off` as the offset. -/
def enter (w : Writers P V) (ip : Inode) (src : List UInt8) : WriterPc :=
  let chunk := src.take maxChunk
  if ip.d.type = tDev then
    .returned src (((driver V ip.d.major).map fun dev => dev.write chunk).getD (-1))
  else if w.off.toNat > ip.d.size.toNat ∨ 2 ^ 32 ≤ w.off.toNat + chunk.length then .returned src (-1)
  else if w.off.toNat + chunk.length > maxfile * bsize then .returned src (-1)
  else .writing src chunk w.off.toNat

/-- One step of a process in `filewrite` of the file with inode `k`. -/
def run (k : Fin ninode) (w : Writers P V) (p : P) : Except Stop (Writers P V) :=
  match w.pc p with
  | .idle => .error .sleep
  | .head src => .ok (w.goto p (if src = [] then .idle else .begun src))
  | .begun src => w.after p (.locked src) (ilock k)
  | .locked src => .ok (w.goto p (w.enter (w.fs.inode k) src))
  | .writing src todo off =>
    if todo = [] then
      w.after p (.returned src (src.take maxChunk).length) (writeEnd k (src.take maxChunk).length off)
    else
      let m := min todo.length (bsize - off % bsize)
      w.after p (.writing src (todo.drop m) (off + m)) (writeBlock k off (todo.take m))
  | .returned src r =>
    .ok { w.goto p (.advanced src r) with
      off := if 0 < r then w.off + UInt32.ofNat r.toNat else w.off }
  | .advanced src r => w.after p (.unlocked src r) (iunlock k)
  | .unlocked src r =>
    if r < 0 then .ok (w.goto p .idle)
    else if r ≠ (src.take maxChunk).length then .error (.panic .shortFilewrite)
    else .ok (w.goto p (.head (src.drop r.toNat)))

/-- **One step**: an idle process makes a call, or a process runs. -/
def step (k : Fin ninode) (w : Writers P V) : WriterAct P → Except Stop (Writers P V)
  | .call p src =>
    if w.pc p = .idle then .ok { w.goto p (.head src) with calls := w.calls ++ [(p, src)] }
    else .error .sleep
  | .run p => run k w p

end Writers

end Col331
