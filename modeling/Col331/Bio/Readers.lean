import Col331.Bio.Cache
import Col331.Fs.Layout

/-!
Processes that read files, and the buffers they need.

`readi` takes one buffer after the other: for a block of the file, first the indirect block if `bmap`
has to look there, and then the block itself.  A buffer that a transaction has changed stays dirty, and
`bget` does not recycle it, until the transaction is committed.

* `ReadFile.readi`: the blocks that a call of `readi` reads, in order.
* `ReadSys`: the buffer cache and processes in `readi`.
* `ReadSys.Ok`: a process in `readi` holds at most one buffer, and the others hold none.
* `readers_fit`: **`bget` finds a buffer** as long as the dirty buffers and the readers are not more than
  `NBUF` together.
* `readers_exhaust`: with `NPROC` readers there may be none.
-/

namespace Col331

open Function

/-! ### `readi` -/

/-- A file as `readi` and `bmap` see it: its inode, and the entries of its indirect block.  Every block
below `size` has been allocated, so that `bmap` has nothing to allocate. -/
structure ReadFile where
  dev : UInt32
  size : UInt32
  addrs : Fin (ndirect + 1) → UInt32
  indirect : ℕ → UInt32
  size_le : size.toNat ≤ maxfile * bsize
  direct_ne : ∀ i : Fin (ndirect + 1), i.val * bsize < size.toNat → addrs i ≠ 0
  indirect_ne : ∀ j, (ndirect + j) * bsize < size.toNat → indirect j ≠ 0

namespace ReadFile

/-- The blocks that `bread(ip->dev, bmap(ip, bn))` reads. -/
def blocksAt (f : ReadFile) (bn : ℕ) : List UInt32 :=
  if h : bn < ndirect then [f.addrs ⟨bn, Nat.lt_succ_of_lt h⟩]
  else [f.addrs (Fin.last ndirect), f.indirect (bn - ndirect)]

/-- The blocks that the loop of `readi` reads for `n` bytes from offset `off` on; `fuel` bounds the number
of rounds. -/
def readLoop (f : ReadFile) : ℕ → ℕ → ℕ → List UInt32
  | 0, _, _ => []
  | fuel + 1, off, n =>
    if n = 0 then []
    else
      let m := min n (bsize - off % bsize)
      f.blocksAt (off / bsize) ++ f.readLoop fuel (off + m) (n - m)

/-- The blocks that `readi` reads; `none` for the result -1. -/
def readi (f : ReadFile) (off n : ℕ) : Option (List UInt32) :=
  if off > f.size.toNat ∨ 2 ^ 32 ≤ off + n then none
  else
    let n := if off + n > f.size.toNat then f.size.toNat - off else n
    some (f.readLoop n off n)

end ReadFile

/-! ### Processes -/

/-- The buffer cache and processes in `readi`. -/
structure ReadSys (P : Type) where
  bio : BioSys P
  /-- `ip->dev` of the file that the process reads. -/
  dev : P → UInt32
  /-- The blocks that the process has not given back yet; none if it is not in `readi`. -/
  todo : P → List UInt32
  /-- What `bread` has returned. -/
  bp : P → Option (Fin nbuf)

/-- What can happen next. -/
inductive ReadAct (P : Type) where
  | readi (p : P) (f : ReadFile) (off n : ℕ)
  /-- The process takes the next step of `readi`. -/
  | next (p : P)
  /-- The disk is done with the buffer that `p` waits for. -/
  | ideintr (p : P)
  | kill (p : P)

namespace ReadSys

variable {P : Type} [DecidableEq P]

/-- Nobody is in `readi`. -/
def start (bio : BioSys P) : ReadSys P := ⟨bio, fun _ => 0, fun _ => [], fun _ => none⟩

/-- The next step of a process in `readi` that reads the block `blk`, with `rest` to go. -/
def read (s : ReadSys P) (p : P) (blk : UInt32) (rest : List UInt32) :
    Except (Option Panic) (ReadSys P) :=
  match s.bio.pc p with
  | .idle =>
    match s.bp p with
    | none => (s.bio.step (.bread p (s.dev p) blk)).map fun bio => { s with bio }
    | some b => (s.bio.step (.brelse p b)).map fun bio => { s with bio }
  | .brelse _ =>
    (s.bio.step (.next p)).map fun bio =>
      { s with bio, todo := update s.todo p rest, bp := update s.bp p none }
  | .fetched b | .iderw b =>
    (s.bio.step (.next p)).map fun bio =>
      { s with bio, bp := update s.bp p (if bio.pc p = .idle then some b else none) }
  | .bget .. | .asleep .. => (s.bio.step (.next p)).map fun bio => { s with bio }

/-- One step. -/
def step (s : ReadSys P) : ReadAct P → Except (Option Panic) (ReadSys P)
  | .readi p f off n =>
    match f.readi off n with
    | none => .ok s
    | some bs => .ok { s with dev := update s.dev p f.dev, todo := update s.todo p bs }
  | .next p =>
    match s.todo p with
    | [] => .ok s
    | blk :: rest => s.read p blk rest
  | .ideintr p => (s.bio.step (.ideintr p)).map fun bio => { s with bio }
  | .kill p => (s.bio.step (.kill p)).map fun bio => { s with bio }

omit [DecidableEq P] in
/-- A process is in one call of `readi` at a time. -/
def Promised (s : ReadSys P) : ReadAct P → Prop
  | .readi p _ _ _ => s.todo p = []
  | _ => True

/-- The number of dirty buffers. -/
def pinned (s : BioSys P) : ℕ := (Finset.univ.filter fun b => (s.cache.buf b).dirty = true).card

/-- The number of processes in `readi`. -/
def readers [Fintype P] (s : ReadSys P) : ℕ := (Finset.univ.filter fun p => s.todo p ≠ []).card

/-- The dirty buffers and the processes in `readi` are not more than `NBUF` together. -/
def Fits [Fintype P] (s : ReadSys P) : Prop := pinned s.bio + s.readers ≤ nbuf

/-! ### The invariant -/

/-- The buffer that a process holds, from where it is. -/
def heldAt (bp : Option (Fin nbuf)) : BufPc → Option (Fin nbuf)
  | .idle => bp
  | .fetched b | .iderw b | .brelse b => some b
  | .bget .. | .asleep .. => none

/-- A process in `readi` holds at most one buffer, and the others hold none. -/
structure Ok (s : ReadSys P) : Prop where
  inv : s.bio.Inv
  held : ∀ p b, s.bio.holds p b = true ↔ heldAt (s.bp p) (s.bio.pc p) = some b
  idle : ∀ p, s.todo p = [] → s.bio.pc p = .idle ∧ s.bp p = none

variable {s : ReadSys P} {p : P}

omit [DecidableEq P] in
/-- `wakeup` changes nothing about who holds what. -/
lemma heldAt_wakeup (s : BioSys P) (b : Fin nbuf) (bp : Option (Fin nbuf)) (p : P) :
    heldAt bp ((s.wakeup b).pc p) = heldAt bp (s.pc p) := by
  simp only [BioSys.wakeup]
  split
  · split <;> simp [heldAt, *]
  · rfl

omit [DecidableEq P] in
lemma wakeup_pc_idle (s : BioSys P) (b : Fin nbuf) (p : P) (h : s.pc p = .idle) :
    (s.wakeup b).pc p = .idle := by
  simp [BioSys.wakeup, h]

lemma goto_pc (s : BioSys P) (p : P) (c : BufPc) : (s.goto p c).pc p = c := update_self ..

variable {bio : BioSys P}

section Move

variable (h : Ok s) (hinv : bio.Inv) (hholds : ∀ q, q ≠ p → bio.holds q = s.bio.holds q)
  (hpc : ∀ q, q ≠ p → heldAt (s.bp q) (bio.pc q) = heldAt (s.bp q) (s.bio.pc q) ∧
    (s.bio.pc q = .idle → bio.pc q = .idle))

include h hinv hholds hpc

/-- **One process moves**, and the others hold what they held. -/
lemma Ok.move {todo : List UInt32} {bp : Option (Fin nbuf)}
    (hp : ∀ b, bio.holds p b = true ↔ heldAt bp (bio.pc p) = some b)
    (hidle : todo = [] → bio.pc p = .idle ∧ bp = none) :
    Ok { s with bio, todo := update s.todo p todo, bp := update s.bp p bp } := by
  refine ⟨hinv, fun q b => ?_, fun q hq => ?_⟩ <;> dsimp only at *
  · by_cases hqp : q = p
    · rw [hqp, update_self]
      exact hp b
    · rw [update_of_ne hqp, hholds q hqp, (hpc q hqp).1]
      exact h.held q b
  · by_cases hqp : q = p
    · subst hqp
      rw [update_self] at hq ⊢
      exact hidle hq
    · rw [update_of_ne hqp] at hq ⊢
      obtain ⟨h₁, h₂⟩ := h.idle q hq
      exact ⟨(hpc q hqp).2 h₁, h₂⟩

/-- The same, when the process goes on in `readi` and its variables stay. -/
lemma Ok.moveBio (hp : ∀ b, bio.holds p b = true ↔ heldAt (s.bp p) (bio.pc p) = some b)
    (htodo : s.todo p = [] → bio.pc p = .idle ∧ s.bp p = none) : Ok { s with bio } := by
  have hmove := h.move hinv hholds hpc hp htodo
  rwa [update_eq_self, update_eq_self] at hmove

end Move

/-- A process goes on at `c` and holds what it held. -/
lemma Ok.goto (h : Ok s) {c : BufPc} {bp : Option (Fin nbuf)} (hinv : (s.bio.goto p c).Inv)
    (hc : heldAt bp c = heldAt (s.bp p) (s.bio.pc p)) (htodo : s.todo p ≠ []) :
    Ok { s with bio := s.bio.goto p c, bp := update s.bp p bp } := by
  have hmove : Ok { s with
      bio := s.bio.goto p c
      todo := update s.todo p (s.todo p)
      bp := update s.bp p bp } := by
    refine h.move hinv (fun q _ => rfl) (fun q hq => ?_) (fun b => ?_) fun hnil => absurd hnil htodo
    · rw [show (s.bio.goto p c).pc q = s.bio.pc q from update_of_ne hq _ _]
      exact ⟨rfl, id⟩
    · rw [goto_pc, hc]
      exact h.held p b
  rwa [update_eq_self] at hmove

/-- The same, when its variables stay too. -/
lemma Ok.gotoBio (h : Ok s) {c : BufPc} (hinv : (s.bio.goto p c).Inv)
    (hc : heldAt (s.bp p) c = heldAt (s.bp p) (s.bio.pc p)) (htodo : s.todo p ≠ []) :
    Ok { s with bio := s.bio.goto p c } := by
  have hgoto := h.goto hinv hc htodo
  rwa [update_eq_self] at hgoto

lemma map_eq_ok {α β : Type} {x : Except (Option Panic) α} {f : α → β} {y : β} (h : x.map f = .ok y) :
    ∃ a, x = .ok a ∧ f a = y := by
  cases x with
  | error e => exact absurd h (by simp [Except.map])
  | ok a => exact ⟨a, rfl, Except.ok.inj h⟩

/-- A buffer is taken. -/
lemma Ok.take (h : Ok s) {b : Fin nbuf} {v : Buf}
    (hbio : bio = ((s.bio.setBuf b v).setHolds p b true).goto p (.fetched b)) (hinv : bio.Inv)
    (hheld : heldAt (s.bp p) (s.bio.pc p) = none) (htodo : s.todo p ≠ []) : Ok { s with bio } := by
  subst hbio
  refine h.moveBio (p := p) hinv (fun q hq => ?_) (fun q hq => ?_) (fun b' => ?_) fun hnil => absurd hnil htodo
  · funext b'
    exact if_neg fun hx => hq hx.1
  · exact ⟨congrArg _ (update_of_ne hq _ _), fun hi => (update_of_ne hq _ _).trans hi⟩
  · rw [show (((s.bio.setBuf b v).setHolds p b true).goto p (.fetched b)).pc p = .fetched b from
      update_self .., heldAt, Option.some.injEq]
    change (if p = p ∧ b' = b then true else s.bio.holds p b') = true ↔ b = b'
    by_cases hb : b' = b
    · simp [hb]
    · rw [if_neg (fun hx => hb hx.2), h.held, hheld]
      exact iff_of_false (by simp) (Ne.symm hb)

/-- The process gets a buffer, or waits for one. -/
lemma Ok.bget (h : Ok s) {dev blockno : UInt32} (hpc : s.bio.pc p = .bget dev blockno)
    (htodo : s.todo p ≠ []) (hrun : s.bio.bget p dev blockno = .ok bio) : Ok { s with bio } := by
  have hheld : heldAt (s.bp p) (s.bio.pc p) = none := by rw [hpc]; rfl
  have hinv := h.inv.of_bget hrun
  have hget := h.inv.bget p dev blockno
  rw [hrun] at hget
  cases hget with
  | wait b _ _ => exact h.gotoBio hinv (hheld ▸ rfl) htodo
  | hit | recycle => exact h.take rfl hinv hheld htodo

/-- The process gives a buffer back. -/
lemma Ok.brelse (h : Ok s) {b : Fin nbuf} {rest : List UInt32} (hpc : s.bio.pc p = .brelse b) :
    Ok { s with
      bio := s.bio.brelse p b
      todo := update s.todo p rest
      bp := update s.bp p none } := by
  have hidle : (s.bio.brelse p b).pc p = .idle := wakeup_pc_idle _ b p (update_self ..)
  refine h.move (h.inv.brelse hpc) (fun q hq => ?_) (fun q hq => ?_) (fun b' => ?_) fun _ => ⟨hidle, rfl⟩
  · funext b'
    exact if_neg fun hx => hq hx.1
  · exact ⟨(heldAt_wakeup _ b _ q).trans (congrArg _ (update_of_ne hq _ _)),
      fun hi => wakeup_pc_idle _ b q ((update_of_ne hq _ _).trans hi)⟩
  · rw [hidle, heldAt]
    change (if p = p ∧ b' = b then false else s.bio.holds p b') = true ↔ none = some b'
    refine iff_of_false ?_ (by simp)
    by_cases hb : b' = b
    · simp [hb]
    · rw [if_neg (fun hx => hb hx.2), h.held, hpc, heldAt, Option.some.injEq]
      exact Ne.symm hb

/-- **A step of `readi`.** -/
lemma Ok.read (h : Ok s) {s' : ReadSys P} {blk : UInt32} {rest : List UInt32} (htodo : s.todo p ≠ [])
    (hrun : s.read p blk rest = .ok s') : Ok s' := by
  cases hpc : s.bio.pc p <;> rw [ReadSys.read, hpc] at hrun
  case idle =>
    cases hbp : s.bp p with
    | none =>
      rw [hbp] at hrun
      obtain ⟨bio, hstep, rfl⟩ := map_eq_ok hrun
      have hinv := h.inv.step (a := .bread p (s.dev p) blk) hpc hstep
      cases hstep
      exact h.gotoBio hinv (by rw [hpc, hbp]; rfl) htodo
    | some b =>
      rw [hbp] at hrun
      obtain ⟨bio, hstep, rfl⟩ := map_eq_ok hrun
      have hheld : s.bio.holds p b = true := (h.held p b).mpr (by rw [hpc, hbp]; rfl)
      have hinv := h.inv.step (a := .brelse p b) ⟨hpc, hheld⟩ hstep
      rw [BioSys.step, if_neg (by rw [(h.inv.busy b).mpr ⟨p, hheld⟩]; decide)] at hstep
      cases hstep
      exact h.gotoBio hinv (by rw [hpc, hbp]; rfl) htodo
  all_goals
    obtain ⟨bio, hstep, rfl⟩ := map_eq_ok hrun
    have hinv := h.inv.step (a := .next p) trivial hstep
    rw [BioSys.step, hpc] at hstep
  case brelse b => exact Except.ok.inj hstep ▸ h.brelse hpc
  case bget dev blockno => exact h.bget hpc htodo hstep
  case asleep b dev blockno => exact Except.ok.inj hstep ▸ h
  case fetched b =>
    dsimp only at hstep
    split_ifs at hstep with hvalid
    · cases hstep
      exact h.goto hinv (by rw [hpc, if_pos (goto_pc ..)]; rfl) htodo
    · rw [BioSys.iderw] at hstep
      split_ifs at hstep
      cases hstep
      exact h.goto hinv (by rw [hpc]; rfl) htodo
  case iderw b =>
    dsimp only at hstep
    split_ifs at hstep with hdone <;> cases hstep
    · exact h.goto hinv (by rw [hpc, if_pos (goto_pc ..)]; rfl) htodo
    · have hgoto : Ok { s with bio := s.bio.goto p (.iderw b), bp := update s.bp p none } :=
        h.goto (by rw [BioSys.goto, ← hpc, update_eq_self]; exact hinv) (by rw [hpc]; rfl) htodo
      rw [BioSys.goto, ← hpc, update_eq_self] at hgoto
      rwa [hpc, if_neg (by simp)]

lemma Ok.step (h : Ok s) {s' : ReadSys P} {a : ReadAct P} (ha : s.Promised a) (hrun : s.step a = .ok s') :
    Ok s' := by
  cases a with
  | readi p f off n =>
    rw [ReadSys.step] at hrun
    split at hrun
    · exact Except.ok.inj hrun ▸ h
    · cases hrun
      refine ⟨h.inv, h.held, fun q hq => ?_⟩
      by_cases hqp : q = p
      · exact h.idle q (hqp ▸ ha)
      · exact h.idle q ((update_of_ne hqp _ _).symm.trans hq)
  | next p =>
    cases htodo : s.todo p <;> rw [ReadSys.step, htodo] at hrun
    · exact Except.ok.inj hrun ▸ h
    · exact h.read (by rw [htodo]; simp) hrun
  | ideintr p =>
    rw [ReadSys.step] at hrun
    obtain ⟨bio, hstep, rfl⟩ := map_eq_ok hrun
    have hinv := h.inv.step (a := .ideintr p) trivial hstep
    rw [BioSys.step] at hstep
    split at hstep
    · cases hstep
      refine h.moveBio (p := p) hinv (fun q _ => rfl) (fun q _ => ?_) (fun b' => ?_) fun hnil => ?_
      · exact ⟨heldAt_wakeup _ _ _ q, fun hi => wakeup_pc_idle _ _ q hi⟩
      · rw [heldAt_wakeup]
        exact h.held p b'
      · exact ⟨wakeup_pc_idle _ _ p (h.idle p hnil).1, (h.idle p hnil).2⟩
    · exact Except.ok.inj hstep ▸ h
  | kill p =>
    rw [ReadSys.step] at hrun
    obtain ⟨bio, hstep, rfl⟩ := map_eq_ok hrun
    have hinv := h.inv.step (a := .kill p) trivial hstep
    rw [BioSys.step] at hstep
    split at hstep
    · rename_i b dev blockno hpc
      cases hstep
      have htodo : s.todo p ≠ [] := fun hnil => by
        rw [(h.idle p hnil).1] at hpc
        cases hpc
      exact h.gotoBio hinv (by rw [hpc]; rfl) htodo
    · exact Except.ok.inj hstep ▸ h

/-! ### Counting -/

variable [Fintype P]

/-- A process in `bget` finds a buffer: those that are busy are held by other readers. -/
lemma Ok.exists_cleanIdle (h : Ok s) (hfit : s.Fits) {dev blockno : UInt32}
    (hpc : s.bio.pc p = .bget dev blockno) : ∃ b, (s.bio.cache.buf b).cleanIdle = true := by
  by_contra hno
  rw [not_exists] at hno
  -- every buffer is dirty, or busy and then held by a reader other than `p`
  have hcover : (Finset.univ : Finset (Fin nbuf)) ⊆
      (Finset.univ.filter fun b => (s.bio.cache.buf b).dirty = true) ∪
        Finset.univ.filter fun b => (s.bio.cache.buf b).busy = true := by
    intro b _
    have hb := hno b
    rw [Buf.cleanIdle, decide_eq_true_eq, not_and_or, Bool.not_eq_false, Bool.not_eq_false] at hb
    rw [Finset.mem_union, Finset.mem_filter, Finset.mem_filter]
    exact hb.symm.imp (fun h => ⟨Finset.mem_univ b, h⟩) fun h => ⟨Finset.mem_univ b, h⟩
  have hbusy : (Finset.univ.filter fun b => (s.bio.cache.buf b).busy = true).card ≤
      ((Finset.univ.filter fun q => s.todo q ≠ []).erase p).card := by
    have hholder : ∀ b ∈ Finset.univ.filter fun b => (s.bio.cache.buf b).busy = true,
        ∃ q ∈ (Finset.univ.filter fun q => s.todo q ≠ []).erase p, s.bio.holds q b = true := by
      intro b hb
      obtain ⟨q, hq⟩ := (h.inv.busy b).mp (Finset.mem_filter.mp hb).2
      have hheld := (h.held q b).mp hq
      refine ⟨q, Finset.mem_erase.mpr ⟨?_, Finset.mem_filter.mpr ⟨Finset.mem_univ q, fun hnil => ?_⟩⟩, hq⟩
      · rintro rfl
        rw [hpc] at hheld
        exact absurd hheld (by simp [heldAt])
      · rw [(h.idle q hnil).1, (h.idle q hnil).2] at hheld
        exact absurd hheld (by simp [heldAt])
    have : Nonempty P := ⟨p⟩
    choose! holder hmem hholds using hholder
    refine Finset.card_le_card_of_injOn holder hmem fun b hb b' hb' heq => ?_
    have h₁ := (h.held _ _).mp (hholds b hb)
    have h₂ := (h.held _ _).mp (hholds b' hb')
    rw [heq] at h₁
    exact Option.some.inj (h₁.symm.trans h₂)
  have hp : p ∈ Finset.univ.filter fun q => s.todo q ≠ [] := by
    refine Finset.mem_filter.mpr ⟨Finset.mem_univ p, fun hnil => ?_⟩
    rw [(h.idle p hnil).1] at hpc
    cases hpc
  have hcard := (Finset.card_le_card hcover).trans (Finset.card_union_le _ _)
  rw [Finset.card_univ, Fintype.card_fin] at hcard
  have herase := Finset.card_erase_lt_of_mem hp
  rw [Fits, pinned, readers] at hfit
  omega

/-- With room for the readers, no step of `readi` stops. -/
lemma Ok.bio_ne_error (h : Ok s) (hfit : s.Fits) {a : BioAct P}
    (ha : s.bio.Promised a) (e : Option Panic) : s.bio.step a ≠ .error e := by
  intro hstep
  obtain ⟨-, p, dev, blockno, hpc, hno⟩ := h.inv.step_error ha hstep
  obtain ⟨b, hb⟩ := h.exists_cleanIdle hfit hpc
  exact absurd hb (hno b ▸ Bool.false_ne_true)

omit [DecidableEq P] [Fintype P] in
lemma map_ne_error {α β : Type} {x : Except (Option Panic) α} {f : α → β} {e : Option Panic}
    (h : ∀ e, x ≠ .error e) : x.map f ≠ .error e := by
  cases x with
  | error e' => exact absurd rfl (h e')
  | ok a => exact fun h => by simp [Except.map] at h

lemma Ok.step_ne_error (h : Ok s) (hfit : s.Fits) (a : ReadAct P)
    (e : Option Panic) : s.step a ≠ .error e := by
  have hbio : ∀ c : BioAct P, s.bio.Promised c → ∀ e, s.bio.step c ≠ .error e :=
    fun _ => h.bio_ne_error hfit
  cases a with
  | readi p f off n =>
    rw [ReadSys.step]
    split <;> simp
  | next p =>
    rw [ReadSys.step]
    split
    · simp
    · rw [ReadSys.read]
      split
      · rename_i hpc
        split
        · exact map_ne_error (hbio _ hpc)
        · rename_i b hbp
          exact map_ne_error (hbio (.brelse p b) ⟨hpc, (h.held p b).mpr (by rw [hpc, hbp]; rfl)⟩)
      all_goals exact map_ne_error (hbio (.next p) trivial)
  | ideintr p => exact map_ne_error (hbio (.ideintr p) trivial)
  | kill p => exact map_ne_error (hbio (.kill p) trivial)

omit [DecidableEq P] [Fintype P] in
lemma start_ok (hinv : bio.Inv) (hidle : ∀ p, bio.pc p = .idle)
    (hfree : ∀ p b, bio.holds p b = false) : Ok (start bio) where
  inv := hinv
  held p b := by
    change bio.holds p b = true ↔ heldAt none (bio.pc p) = some b
    rw [hfree, hidle]
    exact iff_of_false Bool.false_ne_true (by simp [heldAt])
  idle p _ := ⟨hidle p, rfl⟩

/-! ### The limits -/

instance (s : ReadSys P) (a : ReadAct P) : Decidable (s.Promised a) := by
  cases a <;> unfold Promised <;> infer_instance

instance (s : ReadSys P) : Decidable s.Fits := inferInstanceAs (Decidable (_ ≤ _))

/-- **The buffer cache does not run dry while the readers fit into it**: if at every step the dirty buffers
and the processes in `readi` are at most `NBUF`, then `bget` never panics. -/
theorem readers_fit (s₀ : BioSys P) (hboot : Reach BioSys.step BioSys.Promised BioSys.boot s₀)
    (hidle : ∀ p, s₀.pc p = .idle) (hfree : ∀ p b, s₀.holds p b = false) (s : ReadSys P)
    (h : Reach ReadSys.step (fun s a => s.Promised a ∧ s.Fits) (start s₀) s) (hfit : s.Fits)
    (a : ReadAct P) (e : Option Panic) : s.step a ≠ .error e := by
  have hinv : s₀.Inv := hboot.invariant BioSys.boot_inv fun _ _ _ hs ha h' => hs.step ha h'
  have hok : Ok s := h.invariant (start_ok hinv hidle hfree) fun _ _ _ hs ha hstep => hs.step ha.1 hstep
  exact hok.step_ne_error hfit a e

/-- A file of one byte, in the block `k + 1`. -/
def oneByte (k : Fin nproc) : ReadFile where
  dev := 1
  size := 1
  addrs _ := UInt32.ofNat (k + 1)
  indirect _ := 1
  size_le := by decide
  direct_ne _ _ := by revert k; decide
  indirect_ne _ _ := by decide

theorem readers_fit_one : ∃ s : ReadSys (Fin 1),
    Reach ReadSys.step (fun s a => s.Promised a ∧ s.Fits) (start BioSys.boot) s ∧
      s.bio.pc 0 = .bget 1 1 ∧ ∀ e, s.step (.next 0) ≠ .error e := by
  obtain ⟨s, hreach, hpc, hfit⟩ : ∃ s : ReadSys (Fin 1), Reach ReadSys.step
      (fun s a => s.Promised a ∧ s.Fits) (start BioSys.boot) s ∧ s.bio.pc 0 = .bget 1 1 ∧ s.Fits :=
    Reach.of_test [.readi 0 (oneByte 0) 0 1, .next 0] (by decide +kernel)
  exact ⟨s, hreach, hpc,
    readers_fit BioSys.boot .init (fun _ => rfl) (fun _ _ => rfl) s hreach hfit (.next 0)⟩

/-- Each of the first `n` processes reads a file of its own until it has a buffer. -/
def crowd (n : ℕ) : List (ReadAct (Fin nproc)) :=
  ((List.finRange nproc).take n).flatMap fun p => [.readi p (oneByte p) 0 1, .next p, .next p]

/-- **With nothing dirty**, thirty processes can hold all buffers, and the next one stops the kernel. -/
theorem readers_exhaust : ∃ s : ReadSys (Fin nproc),
    Reach ReadSys.step Promised (start BioSys.boot) s ∧ pinned s.bio ≤ logSize ∧
      s.step (.next 30) = .error (some .bgetNone) := by
  obtain ⟨s, hreach, hpin, hstop⟩ : ∃ s : ReadSys (Fin nproc),
      Reach ReadSys.step Promised (start BioSys.boot) s ∧ pinned s.bio ≤ logSize ∧
      stopsWith (some .bgetNone) (s.step (.next 30)) = true :=
    Reach.of_test (crowd 30 ++ [.readi 30 (oneByte 30) 0 1, .next 30]) (by decide +kernel)
  exact ⟨s, hreach, hpin, stopsWith_eq_true hstop⟩

end ReadSys

end Col331
