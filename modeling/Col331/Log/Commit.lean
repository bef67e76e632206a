import Col331.Kernel.Param
import Col331.Logic.Crash

/-!
The commit and the recovery of the redo log (`log.c`): `write_log`, `write_head`,
`install_trans`, `read_head`, `commit` and `recover_from_log`, over a disk behind a buffer cache.

A buffer that `log_write` has pinned differs from its block on disk; every other buffer agrees
with it, so `bread` gives the pinned contents where there are some and the disk elsewhere.
`bwrite` is the only operation that reaches the disk, and `LogMem.writes` is the history of the
blocks it wrote, oldest first.

For each function one lemma gives the exact list of blocks it writes
(`writeLog_eq`, `writeHead_eq`, `installTrans_eq`), and these make up the writes of a commit
(`commitWrites_eq`) and of a recovery (`recoverWrites_eq`).
-/

namespace Col331

/-! ### The header block -/

/-- `struct logheader` in memory; `block i` for `LOGSIZE <= i` is what lies behind the array. -/
structure LogHeader where
  n : ℤ
  block : ℕ → UInt32

/-- `lh->n` of a header block. -/
def headN (b : Block) : ℤ := (b.u32 0).toInt32.toInt

/-- `lh->block[i]` of a header block. -/
def headBlock (b : Block) (i : ℕ) : UInt32 := b.u32 (4 + 4 * i)

/-- `hb->n = n`. -/
def setHeadN (b : Block) (n : ℤ) : Block := b.splice 0 (Bytes.le32 (Int32.ofInt n).toUInt32)

/-- `hb->block[i] = v`. -/
def setHeadBlock (b : Block) (i : ℕ) (v : UInt32) : Block := b.splice (4 + 4 * i) (Bytes.le32 v)

/-- The header block that `write_head` writes over the block `b`: the entries from `n` on are
left as they are. -/
def encodeHead (lh : LogHeader) (b : Block) : Block :=
  (List.range lh.n.toNat).foldl (fun b i => setHeadBlock b i (lh.block i)) (setHeadN b lh.n)

lemma headN_setHeadN (b : Block) {n : ℤ} (h0 : 0 ≤ n) (hn : n ≤ logSize) :
    headN (setHeadN b n) = n := by
  rw [headN, setHeadN, Bytes.u32_splice_le32 b (by decide)]
  simp only [Int32.toInt32_toUInt32]
  exact Int32.toInt_ofInt_of_le (by omega) (by simp only [logSize, maxOpBlocks] at hn; omega)

lemma headN_setHeadBlock (b : Block) (i : ℕ) (v : UInt32) :
    headN (setHeadBlock b i v) = headN b := by
  rw [headN, setHeadBlock, Bytes.u32_splice_of_disjoint b (by omega), headN]

lemma headBlock_setHeadBlock (b : Block) {i j : ℕ} (hi : i < logSize) (v : UInt32) :
    headBlock (setHeadBlock b i v) j = if j = i then v else headBlock b j := by
  rw [headBlock, setHeadBlock]
  by_cases hji : j = i
  · subst hji
    rw [if_pos rfl, Bytes.u32_splice_le32 b (by simp only [logSize, maxOpBlocks, bsize] at *; omega)]
  · rw [if_neg hji, Bytes.u32_splice_of_disjoint b (by simp only [Bytes.le32_length]; omega),
      headBlock]

/-- The loop of `write_head` over the first `k` entries. -/
lemma setHeadBlocks (block : ℕ → UInt32) (b : Block) {k : ℕ} (hk : k ≤ logSize) :
    let b' := (List.range k).foldl (fun b i => setHeadBlock b i (block i)) b
    headN b' = headN b ∧ ∀ i < k, headBlock b' i = block i := by
  induction k with
  | zero => exact ⟨rfl, fun i hi => absurd hi (Nat.not_lt_zero i)⟩
  | succ k ih =>
    obtain ⟨hn, hb⟩ := ih (by omega)
    simp only [List.range_succ, List.foldl_append, List.foldl_cons, List.foldl_nil] at *
    refine ⟨by rw [headN_setHeadBlock, hn], fun i hi => ?_⟩
    rw [headBlock_setHeadBlock _ (by omega)]
    by_cases hik : i = k
    · rw [if_pos hik, hik]
    · rw [if_neg hik]
      exact hb i (by omega)

/-- A header read back: the count, and the entries below it. -/
lemma headN_encodeHead (lh : LogHeader) (b : Block) (h0 : 0 ≤ lh.n) (hn : lh.n ≤ logSize) :
    headN (encodeHead lh b) = lh.n := by
  rw [encodeHead, (setHeadBlocks lh.block (setHeadN b lh.n) (by omega)).1, headN_setHeadN b h0 hn]

lemma headBlock_encodeHead (lh : LogHeader) (b : Block) (hn : lh.n ≤ logSize) {i : ℕ}
    (hi : i < lh.n.toNat) : headBlock (encodeHead lh b) i = lh.block i := by
  rw [encodeHead]
  exact (setHeadBlocks lh.block (setHeadN b lh.n) (by omega)).2 i hi

/-! ### The functions of `log.c` -/

/-- The in-memory log (`log.start`, `log.size`, `log.lh`), the pinned buffers, the disk, and the
blocks written to it so far. -/
structure LogMem where
  start : ℕ
  size : ℕ
  lh : LogHeader
  pinned : ℕ → Option Block
  disk : Disk
  writes : List (ℕ × Block)

namespace LogMem

/-- `bread`: the contents of a block as the buffer cache shows them. -/
def bread (m : LogMem) (b : ℕ) : Block := (m.pinned b).getD (m.disk b)

/-- `bwrite`: the buffer is written to the disk and no longer dirty. -/
def bwrite (m : LogMem) (b : ℕ) (v : Block) : LogMem :=
  { m with
    pinned := Function.update m.pinned b none
    disk := Function.update m.disk b v
    writes := m.writes ++ [(b, v)] }

/-- `write_log`: copy the modified blocks from the cache to the log. -/
def writeLog (m : LogMem) : LogMem :=
  (List.range m.lh.n.toNat).foldl
    (fun m' tail => m'.bwrite (m'.start + tail + 1) (m'.bread (m'.lh.block tail).toNat)) m

/-- `install_trans`: copy the committed blocks from the log to their home locations. -/
def installTrans (m : LogMem) : LogMem :=
  (List.range m.lh.n.toNat).foldl
    (fun m' tail => m'.bwrite (m'.lh.block tail).toNat (m'.bread (m'.start + tail + 1))) m

/-- `read_head`. -/
def readHead (m : LogMem) : LogMem :=
  let b := m.bread m.start
  { m with
    lh.n := headN b
    lh.block := fun i => if i < (headN b).toNat then headBlock b i else m.lh.block i }

/-- `write_head`. -/
def writeHead (m : LogMem) : LogMem := m.bwrite m.start (encodeHead m.lh (m.bread m.start))

/-- `log.lh.n = 0`. -/
def clearHead (m : LogMem) : LogMem := { m with lh.n := 0 }

/-- `commit`. -/
def commit (m : LogMem) : LogMem :=
  if 0 < m.lh.n then m.writeLog.writeHead.installTrans.clearHead.writeHead else m

/-- `recover_from_log`. -/
def recoverFromLog (m : LogMem) : LogMem := m.readHead.installTrans.clearHead.writeHead

/-! ### What the functions write -/

/-- The writes `ws`, one `bwrite` each. -/
def wrote (m : LogMem) (ws : List (ℕ × Block)) : LogMem :=
  ws.foldl (fun m' w => m'.bwrite w.1 w.2) m

section

variable (m : LogMem)

include m

lemma bread_bwrite (b : ℕ) (v : Block) :
    (m.bwrite b v).bread = Function.update m.bread b v := by
  funext x
  by_cases hx : x = b
  · subst hx
    simp [bread, bwrite]
  · simp [bread, bwrite, hx]

lemma wrote_append (ws vs : List (ℕ × Block)) :
    m.wrote (ws ++ vs) = (m.wrote ws).wrote vs := List.foldl_append

@[simp] lemma wrote_start (ws : List (ℕ × Block)) : (m.wrote ws).start = m.start := by
  induction ws generalizing m with
  | nil => rfl
  | cons w ws ih => exact ih _

@[simp] lemma wrote_size (ws : List (ℕ × Block)) : (m.wrote ws).size = m.size := by
  induction ws generalizing m with
  | nil => rfl
  | cons w ws ih => exact ih _

@[simp] lemma wrote_lh (ws : List (ℕ × Block)) : (m.wrote ws).lh = m.lh := by
  induction ws generalizing m with
  | nil => rfl
  | cons w ws ih => exact ih _

@[simp] lemma wrote_writes (ws : List (ℕ × Block)) :
    (m.wrote ws).writes = m.writes ++ ws := by
  induction ws generalizing m with
  | nil => exact (List.append_nil _).symm
  | cons w ws ih => exact (ih _).trans (by simp [bwrite])

/-- The cache shows what was written. -/
lemma bread_wrote (ws : List (ℕ × Block)) :
    (m.wrote ws).bread = applyWrites ws m.bread := by
  induction ws generalizing m with
  | nil => rfl
  | cons w ws ih =>
    rw [applyWrites_cons, ← bread_bwrite]
    exact ih _

end

/-- A loop that copies block `src t` to block `dst t`, no source being a destination, writes the
contents the sources had before it. -/
lemma foldl_copy (dst src : LogMem → ℕ → ℕ)
    (hdst : ∀ m ws t, dst (wrote m ws) t = dst m t) (hsrc : ∀ m ws t, src (wrote m ws) t = src m t)
    (m : LogMem) {n : ℕ} (h : ∀ i < n, ∀ j < n, dst m i ≠ src m j) :
    (List.range n).foldl (fun m' t => m'.bwrite (dst m' t) (m'.bread (src m' t))) m =
      m.wrote ((List.range n).map fun t => (dst m t, m.bread (src m t))) := by
  induction n with
  | zero => rfl
  | succ n ih =>
    have hn := ih fun i hi j hj => h i (by omega) j (by omega)
    simp only [List.range_succ, List.foldl_append, List.foldl_cons, List.foldl_nil,
      List.map_append, List.map_cons, List.map_nil, wrote_append, hn, hdst, hsrc]
    have hread : (m.wrote ((List.range n).map fun t => (dst m t, m.bread (src m t)))).bread
        (src m n) = m.bread (src m n) := by
      rw [bread_wrote]
      apply applyWrites_of_notMem
      intro w hw
      obtain ⟨i, hi, rfl⟩ := List.mem_map.mp hw
      exact h i (by rw [List.mem_range] at hi; omega) n (by omega)
    rw [hread]
    rfl

/-- A block of the log area, the header block included. -/
def InLog (m : LogMem) (b : ℕ) : Prop := m.start ≤ b ∧ b < m.start + m.size

/-- The log entries lie in the log area and their home blocks outside it. -/
structure HomesOutside (m : LogMem) : Prop where
  room : m.lh.n ≤ (m.size : ℤ) - 1
  home : ∀ i < m.lh.n.toNat, ¬ m.InLog (m.lh.block i).toNat

/-- The copies of the modified blocks that `write_log` puts in the log. -/
def logCopies (m : LogMem) : List (ℕ × Block) :=
  (List.range m.lh.n.toNat).map fun i => (m.start + i + 1, m.bread (m.lh.block i).toNat)

/-- The home blocks of the transaction, each with the contents of its log entry. -/
def homeCopies (m : LogMem) : List (ℕ × Block) :=
  (List.range m.lh.n.toNat).map fun i => ((m.lh.block i).toNat, m.bread (m.start + i + 1))

lemma writeLog_eq {m : LogMem} (h : m.HomesOutside) : m.writeLog = m.wrote m.logCopies := by
  apply foldl_copy (fun m' t => m'.start + t + 1) (fun m' t => (m'.lh.block t).toNat)
  · intro m' ws t
    rw [wrote_start]
  · intro m' ws t
    rw [wrote_lh]
  · intro i hi j hj heq
    have hroom := h.room
    refine h.home j hj ?_
    rw [← heq]
    exact ⟨by omega, by omega⟩

lemma installTrans_eq {m : LogMem} (h : m.HomesOutside) :
    m.installTrans = m.wrote m.homeCopies := by
  apply foldl_copy (fun m' t => (m'.lh.block t).toNat) (fun m' t => m'.start + t + 1)
  · intro m' ws t
    rw [wrote_lh]
  · intro m' ws t
    rw [wrote_start]
  · intro i hi j hj heq
    have hroom := h.room
    refine h.home i hi ?_
    rw [heq]
    exact ⟨by omega, by omega⟩

lemma writeHead_eq (m : LogMem) :
    m.writeHead = m.wrote [(m.start, encodeHead m.lh (m.bread m.start))] := rfl

end LogMem

/-- The log after a restart on the disk `d`: nothing is cached, and `initlog` has read `start`
and `size` from the super block. -/
def bootLog (start size : ℕ) (d : Disk) : LogMem :=
  { start, size, lh := ⟨0, fun _ => 0⟩, pinned := fun _ => none, disk := d, writes := [] }

/-! ### The writes of a commit -/

/-- The blocks a commit writes, in order. -/
def commitWrites (m : LogMem) : List (ℕ × Block) := ({ m with writes := [] } : LogMem).commit.writes

/-- The new contents of the transaction's home blocks. -/
def newHomes (m : LogMem) : List (ℕ × Block) :=
  (List.range m.lh.n.toNat).map fun i => ((m.lh.block i).toNat, m.bread (m.lh.block i).toNat)

/-- The header block of the commit. -/
def commitHead (m : LogMem) : Block := encodeHead m.lh (m.bread m.start)

lemma mem_logCopies_ne_start {m : LogMem} {w : ℕ × Block} (hw : w ∈ m.logCopies) :
    w.1 ≠ m.start := by
  obtain ⟨i, _, rfl⟩ := List.mem_map.mp hw
  omega

/-- The log entry `i` after `write_log`. -/
lemma applyWrites_logCopies (m : LogMem) (d : Disk) {i : ℕ} (hi : i < m.lh.n.toNat) :
    applyWrites m.logCopies d (m.start + i + 1) = m.bread (m.lh.block i).toNat := by
  apply applyWrites_of_mem
  · exact ⟨_, List.mem_map.mpr ⟨i, List.mem_range.mpr hi, rfl⟩, rfl⟩
  · intro w hw hwa
    obtain ⟨j, _, rfl⟩ := List.mem_map.mp hw
    have hji : j = i := by dsimp only at hwa; omega
    rw [hji]

/-- **The writes of a commit**: the log entries, the header, the home blocks, and the header
with count zero. -/
lemma commitWrites_eq {m : LogMem} (h : m.HomesOutside) (hpos : 0 < m.lh.n) :
    commitWrites m = m.logCopies ++ (m.start, commitHead m) ::
      (newHomes m ++ [(m.start, setHeadN (commitHead m) 0)]) := by
  set m₀ : LogMem := { m with writes := [] } with hm₀
  have h₀ : m₀.HomesOutside := ⟨h.room, h.home⟩
  -- `write_log` leaves the header block alone
  have hhead : (m₀.wrote m₀.logCopies).bread m.start = m.bread m.start := by
    rw [LogMem.bread_wrote]
    exact applyWrites_of_notMem (fun w hw => mem_logCopies_ne_start hw) _
  have h1 : m₀.writeLog.writeHead = m₀.wrote (m.logCopies ++ [(m.start, commitHead m)]) := by
    rw [LogMem.writeLog_eq h₀, LogMem.writeHead_eq, LogMem.wrote_append, LogMem.wrote_start,
      LogMem.wrote_lh, hhead]
    rfl
  set m₁ := m₀.wrote (m.logCopies ++ [(m.start, commitHead m)]) with hm₁
  have hb₁ : m₁.bread = applyWrites (m.logCopies ++ [(m.start, commitHead m)]) m.bread := by
    rw [hm₁, LogMem.bread_wrote]
    rfl
  have hout₁ : m₁.HomesOutside := by
    constructor
    · simpa [hm₁] using h.room
    · simpa [hm₁, LogMem.InLog] using h.home
  -- the entries installed are the ones just written
  have hcopies : m₁.homeCopies = newHomes m := by
    rw [LogMem.homeCopies, newHomes, hb₁, hm₁, LogMem.wrote_lh, LogMem.wrote_start]
    refine List.map_congr_left fun i hi => ?_
    rw [applyWrites_append, applyWrites_of_notMem]
    · rw [applyWrites_logCopies m _ (List.mem_range.mp hi)]
    · simp only [List.mem_singleton, forall_eq, hm₀]
      omega
  have h2 : m₁.installTrans = m₁.wrote (newHomes m) := by
    rw [LogMem.installTrans_eq hout₁, hcopies]
  -- installing leaves the header block alone
  have hhead₂ : (m₁.wrote (newHomes m)).bread m.start = commitHead m := by
    rw [LogMem.bread_wrote, hb₁, applyWrites_of_notMem, applyWrites_append]
    · simp
    · intro w hw hws
      obtain ⟨i, hi, rfl⟩ := List.mem_map.mp hw
      have hroom := h.room
      rw [List.mem_range] at hi
      exact h.home i hi ⟨by omega, by omega⟩
  have h3 : m₀.commit.writes =
      ((m₁.wrote (newHomes m)).clearHead.wrote [(m.start, setHeadN (commitHead m) 0)]).writes := by
    rw [LogMem.commit, if_pos hpos, h1, h2, LogMem.writeHead_eq]
    have hb : (m₁.wrote (newHomes m)).clearHead.bread m.start = commitHead m := hhead₂
    have hs : (m₁.wrote (newHomes m)).clearHead.start = m.start := by
      simp [LogMem.clearHead, hm₁, hm₀]
    rw [hs, hb]
    rfl
  have hw : (m₁.wrote (newHomes m)).clearHead.writes =
      m.logCopies ++ [(m.start, commitHead m)] ++ newHomes m := by
    simp [LogMem.clearHead, hm₁, hm₀]
  rw [commitWrites, ← hm₀, h3, LogMem.wrote_writes, hw]
  simp

/-! ### The writes of a recovery -/

/-- The blocks a recovery on the disk `d` writes, in order. -/
def recoverWrites (start size : ℕ) (d : Disk) : List (ℕ × Block) :=
  (bootLog start size d).recoverFromLog.writes

/-- The home blocks that the header on the disk `d` names, each with the contents of its log
entry. -/
def loggedHomes (start : ℕ) (d : Disk) : List (ℕ × Block) :=
  (List.range (headN (d start)).toNat).map fun i =>
    ((headBlock (d start) i).toNat, d (start + i + 1))

/-- The header on disk names no block of the log area, and its entries fit the area. -/
structure HeadOutside (start size : ℕ) (d : Disk) : Prop where
  room : headN (d start) ≤ (size : ℤ) - 1
  home : ∀ i < (headN (d start)).toNat, ∀ b, (headBlock (d start) i).toNat = b →
    ¬ (start ≤ b ∧ b < start + size)

/-- **The writes of a recovery**: the logged home blocks, and the header with count zero. -/
lemma recoverWrites_eq {start size : ℕ} {d : Disk} (h : HeadOutside start size d)
    (hsize : 0 < size) :
    recoverWrites start size d = loggedHomes start d ++ [(start, setHeadN (d start) 0)] := by
  set m := (bootLog start size d).readHead with hm
  have hout : m.HomesOutside := by
    refine ⟨h.room, fun i hi => ?_⟩
    have hi' : i < (headN (d start)).toNat := hi
    have hb : m.lh.block i = headBlock (d start) i := if_pos hi'
    rw [hb]
    exact h.home i hi' _ rfl
  have hcopies : m.homeCopies = loggedHomes start d := by
    rw [LogMem.homeCopies, loggedHomes]
    refine List.map_congr_left fun i hi => ?_
    have hb : m.lh.block i = headBlock (d start) i := if_pos (List.mem_range.mp hi)
    rw [hb]
    rfl
  have hhead : (m.wrote (loggedHomes start d)).bread start = d start := by
    rw [LogMem.bread_wrote, applyWrites_of_notMem]
    · rfl
    · intro w hw hws
      obtain ⟨i, hi, rfl⟩ := List.mem_map.mp hw
      exact h.home i (List.mem_range.mp hi) _ hws ⟨le_rfl, by omega⟩
  rw [recoverWrites, LogMem.recoverFromLog, ← hm, LogMem.installTrans_eq hout, hcopies,
    LogMem.writeHead_eq, LogMem.wrote_writes]
  have hs : (m.wrote (loggedHomes start d)).clearHead.start = start := by
    simp [LogMem.clearHead, hm, LogMem.readHead, bootLog]
  have hb : (m.wrote (loggedHomes start d)).clearHead.bread start = d start := hhead
  rw [hs, hb]
  have hw : (m.wrote (loggedHomes start d)).clearHead.writes = loggedHomes start d := by
    simp [LogMem.clearHead, hm, LogMem.readHead, bootLog]
  rw [hw]
  rfl

end Col331
