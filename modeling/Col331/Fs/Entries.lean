import Col331.Fs.Dir
import Col331.Fs.Refs
import Col331.Fs.Sim

/-!
The entries of a directory, and what the functions of `fs.c` do to them.

* `Node.entry n j`: the inode number and the name in slot `j` of a directory, if the slot is used.
* `Holds.dirlookup`, `Holds.dirlink`, `Holds.isdirempty`: the functions in terms of entries.
* `Node.entry_setEntry`: an entry written to a slot.
-/

namespace Col331

open Prog

variable {V : Volume}

/-! ### Slots -/

/-- The entry at offset `off` of a directory. -/
def direntAt (c : List UInt8) (off : ℕ) : Dirent := Dirent.ofBytes ((c.drop off).take direntSize)

/-- What an entry says: the inode number and the name, if it is used. -/
def Dirent.entry (de : Dirent) : Option (ℕ × List UInt8) :=
  if de.inum = 0 then none else some (de.inum.toNat, cstr dirsiz de.name)

/-- Slot `j` of a directory. -/
def Node.entry (n : Node) (j : ℕ) : Option (ℕ × List UInt8) :=
  if n.type = tDir ∧ direntSize * j + direntSize ≤ n.content.length then
    (direntAt n.content (direntSize * j)).entry
  else none

variable {n : Node}

lemma Node.entry_of_not_dir (h : n.type ≠ tDir) (j : ℕ) : n.entry j = none :=
  if_neg fun hn => h hn.1

lemma Node.entry_eq (h : n.type = tDir) {j : ℕ}
    (hj : direntSize * j + direntSize ≤ n.content.length) :
    n.entry j = (direntAt n.content (direntSize * j)).entry := if_pos ⟨h, hj⟩

lemma Node.entry_of_length_le {j : ℕ} (hj : n.content.length ≤ direntSize * j) :
    n.entry j = none := if_neg fun hn => by
  have := hn.2
  simp only [direntSize, dirsiz] at *
  omega

lemma Node.lt_of_entry {j : ℕ} {e : ℕ × List UInt8} (h : n.entry j = some e) :
    n.type = tDir ∧ direntSize * j + direntSize ≤ n.content.length := by
  by_contra hn
  rw [Node.entry, if_neg hn] at h
  nomatch h

lemma Node.pos_of_entry {i j : ℕ} {x : List UInt8} (h : n.entry j = some (i, x)) : 0 < i := by
  obtain ⟨htype, hlen⟩ := Node.lt_of_entry h
  rw [Node.entry_eq htype hlen, Dirent.entry] at h
  split_ifs at h with h0
  rw [← (Prod.mk.inj (Option.some.inj h)).1]
  exact Nat.pos_of_ne_zero fun h' => h0 (UInt16.toNat_inj.mp h')

lemma Node.cstr_of_entry {i j : ℕ} {x : List UInt8} (h : n.entry j = some (i, x)) :
    cstr dirsiz x = x := by
  obtain ⟨htype, hlen⟩ := Node.lt_of_entry h
  rw [Node.entry_eq htype hlen, Dirent.entry] at h
  split_ifs at h
  rw [← (Prod.mk.inj (Option.some.inj h)).2, cstr_cstr]

/-- The entry that `dirlink` writes. -/
lemma Dirent.entry_new {i : ℕ} (h0 : 0 < i) (hi : i < V.ninodes) (name : List UInt8) :
    (Dirent.mk (UInt16.ofNat i) (strncpy name dirsiz)).entry = some (i, cstr dirsiz name) := by
  have hinums := V.inums
  have htoNat : (UInt16.ofNat i).toNat = i :=
    UInt16.toNat_ofNat_of_lt' (show i < UInt16.size by simp only [UInt16.size]; omega)
  have hne : UInt16.ofNat i ≠ 0 := fun h => by
    rw [h] at htoNat
    exact absurd htoNat.symm (by simpa using Nat.ne_of_gt h0)
  rw [Dirent.entry, if_neg hne, htoNat, cstr_strncpy]

/-- Entries are the type's and the content's alone. -/
lemma Node.entry_congr {n n' : Node} (ht : n'.type = n.type) (hc : n'.content = n.content) (j : ℕ) :
    n'.entry j = n.entry j := by
  rw [Node.entry, Node.entry, ht, hc]

/-- A part of the content that is not written over. -/
lemma slice_overlay_of_disjoint {c src : List UInt8} {off p m : ℕ} (hoff : off ≤ c.length)
    (hp : p + m ≤ c.length) (hd : p + m ≤ off ∨ off + src.length ≤ p) :
    ((Afs.overlay c src off).drop p).take m = (c.drop p).take m := by
  have hlen : (Afs.overlay c src off).length = _ := Afs.overlay_length hoff
  apply List.ext_getElem
  · simp only [List.length_take, List.length_drop]
    omega
  · intro q h1 h2
    simp only [List.length_take, List.length_drop] at h1 h2
    rw [List.getElem_take, List.getElem_take, List.getElem_drop, List.getElem_drop,
      Afs.overlay_getElem hoff, if_neg (by omega), List.getD_eq_getElem]

/-- The part that is. -/
lemma slice_overlay_self {c src : List UInt8} {off : ℕ} (hoff : off ≤ c.length) :
    ((Afs.overlay c src off).drop off).take src.length = src := by
  have htake : (c.take off).length = off := by rw [List.length_take]; omega
  rw [Afs.overlay, List.append_assoc, List.drop_append_of_le_length (by omega)]
  simp

/-- The directory with the entry `de` written to slot `j`. -/
def Node.setEntry (n : Node) (j : ℕ) (de : Dirent) : Node :=
  { n with content := Afs.overlay n.content de.bytes (direntSize * j) }

section SetEntry

variable {n : Node} {de : Dirent} {j : ℕ}

lemma Node.length_setEntry (hname : de.name.length = dirsiz) (hj : direntSize * j ≤ n.content.length) :
    (n.setEntry j de).content.length = max n.content.length (direntSize * j + direntSize) := by
  rw [Node.setEntry]
  rw [Afs.overlay_length hj]
  simp only [Dirent.bytes, List.length_append, Bytes.le16_length, hname]

/-- **An entry is written** to slot `j`; the others stay. -/
lemma Node.entry_setEntry (h : n.type = tDir) (hname : de.name.length = dirsiz)
    (hj : direntSize * j ≤ n.content.length) (j' : ℕ) :
    (n.setEntry j de).entry j' = if j' = j then de.entry else n.entry j' := by
  have hlen := Node.length_setEntry hname hj
  have h' : (n.setEntry j de).type = tDir := h
  have hc : (n.setEntry j de).content = Afs.overlay n.content de.bytes (direntSize * j) := rfl
  have hbytes : de.bytes.length = direntSize := by
    simp only [Dirent.bytes, List.length_append, Bytes.le16_length, hname]
  by_cases hjj : j' = j
  · subst hjj
    have hslice : ((n.setEntry j' de).content.drop (direntSize * j')).take de.bytes.length =
        de.bytes := by rw [hc, slice_overlay_self hj]
    rw [hbytes] at hslice
    rw [if_pos rfl, Node.entry_eq h' (by omega), direntAt, hslice, Dirent.ofBytes_bytes de hname]
  · rw [if_neg hjj]
    by_cases hin : direntSize * j' + direntSize ≤ n.content.length
    · rw [Node.entry_eq h hin, Node.entry_eq h' (by omega), direntAt, direntAt, hc,
        slice_overlay_of_disjoint hj hin]
      rw [hbytes]
      simp only [direntSize, dirsiz] at *
      omega
    · have hout : ¬ direntSize * j' + direntSize ≤ (n.setEntry j de).content.length := by
        simp only [direntSize, dirsiz] at *
        omega
      rw [Node.entry, Node.entry, if_neg (fun hn => hout hn.2), if_neg (fun hn => hin hn.2)]

end SetEntry

/-! ### The functions -/

lemma direntOffsets_eq (q size : ℕ) : direntOffsets (direntSize * q) size =
    ((List.range ((size - direntSize * q + (direntSize - 1)) / direntSize)).map (q + ·)).map
      (direntSize * ·) := by
  rw [direntOffsets, List.map_map]
  refine List.map_congr_left fun j _ => ?_
  simp only [Function.comp_apply]
  ring

lemma mem_slots {q size j : ℕ} :
    j ∈ (List.range ((size - direntSize * q + (direntSize - 1)) / direntSize)).map (q + ·) ↔
      q ≤ j ∧ direntSize * j < size := by
  simp only [List.mem_map, List.mem_range, direntSize, dirsiz]
  constructor
  · rintro ⟨m, hm, rfl⟩
    omega
  · rintro ⟨hq, hj⟩
    exact ⟨j - q, by omega, by omega⟩

/-- Every entry of the inode names an inode of the table. -/
def Node.InRange (V : Volume) (n : Node) : Prop := ∀ j i x, n.entry j = some (i, x) → i < V.ninodes

/-- What a lookup of `name` in inode `i`, among the slots `J`, finds: no entry, or an entry, to whose
inode it holds a reference then. -/
def Looked (base : Fin ninode → Slot) (τ : List Ref) (a : Afs V) (i : ℕ) (name : List UInt8)
    (J : ℕ → Prop) : Option (Fin ninode × ℕ) → Afs V → Prop
  | none, a' => a' = a ∧ ∀ j, J j → direntSize * j + direntSize ≤ (a.node i).content.length ∧
      ∀ i', (a.node i).entry j ≠ some (i', cstr dirsiz name)
  | some (k', off), a' => ∃ j i', off = direntSize * j ∧
      (a.node i).entry j = some (i', cstr dirsiz name) ∧
      Holds base (⟨k', i', false⟩ :: τ) a' ∧ a'.node = a.node

namespace Holds

variable {base : Fin ninode → Slot} {τ : List Ref} {a : Afs V} {k : Fin ninode} {i : ℕ}

section Read

variable (h : Holds base τ a) (ht : ⟨k, i, true⟩ ∈ τ) (hdir : (a.node i).type = tDir)

include h ht hdir

/-- Reading an entry changes nothing. -/
lemma readDirent {msg : Panic} (hmsg : Stop.Tame (.panic msg)) (off : ℕ) :
    wp (readDirent msg k off) (fun de a' => a' = a ∧ de = direntAt (a.node i).content off ∧
      off + direntSize ≤ (a.node i).content.length) Stop.Tame a := by
  have hdev : ¬ (a.node i).type = tDev := by rw [hdir]; decide
  have hreadi : wp (InodeLayer.readi k off direntSize) (fun r a' => a' = a ∧
      ∀ bs, r = some bs → bs = ((a.node i).content.drop off).take direntSize) Stop.Tame a := by
    change wp (Afs.readi k off direntSize) _ _ _
    rw [Afs.readi, wp_bind, wp_of_ok (h.held ht), if_neg hdev]
    split_ifs
    · exact ⟨rfl, (by simp)⟩
    · exact ⟨rfl, fun _ hbs => (Option.some.inj hbs).symm⟩
  rw [Col331.readDirent]
  refine wp_seq hreadi ?_
  rintro r a' ⟨rfl, hr⟩
  cases r with
  | none => exact hmsg
  | some bs =>
    obtain rfl := hr bs rfl
    dsimp only
    split_ifs with hlen
    · refine ⟨rfl, rfl, ?_⟩
      rw [List.length_take, List.length_drop] at hlen
      simp only [direntSize, dirsiz] at *
      omega
    · exact hmsg

/-- The loop of `dirlookup`, over the slots `js`. -/
lemma lookupLoop (hrange : (a.node i).InRange V) (name : List UInt8) (js : List ℕ) :
    wp (lookupLoop k name (js.map (direntSize * ·))) (Looked base τ a i name (· ∈ js))
      Stop.Tame a := by
  induction js with
  | nil => exact ⟨rfl, nofun⟩
  | cons j js ih =>
    rw [List.map_cons, Col331.lookupLoop]
    refine wp_seq (h.readDirent ht hdir (by decide) _) ?_
    rintro de a' ⟨rfl, rfl, hlen⟩
    have hentry := Node.entry_eq hdir hlen
    rw [Dirent.entry] at hentry
    -- the loop goes on behind a slot that does not have the name
    have hnext (hne : ∀ i', (a'.node i).entry j ≠ some (i', cstr dirsiz name)) :
        wp (Col331.lookupLoop k name (js.map (direntSize * ·)))
          (Looked base τ a' i name (· ∈ j :: js)) Stop.Tame a' := by
      refine wp_post ih ?_
      rintro (_ | ⟨k', off⟩) a'' hr
      · refine ⟨hr.1, fun j' hj' => ?_⟩
        rcases List.mem_cons.mp hj' with rfl | hj'
        · exact ⟨hlen, hne⟩
        · exact hr.2 j' hj'
      · exact hr
    split_ifs with h0 hcmp
    · refine hnext fun i' => ?_
      rw [hentry, if_pos h0]
      simp
    · rw [if_neg h0, ← namecmp_eq_zero_iff.mp hcmp] at hentry
      refine wp_seq (h.iget (hrange j _ _ hentry)) ?_
      rintro k' a'' ⟨hh, hn⟩
      exact ⟨j, _, rfl, hentry, hh, hn⟩
    · refine hnext fun i' heq => hcmp ?_
      rw [hentry, if_neg h0] at heq
      rw [namecmp_eq_zero_iff, (Prod.mk.inj (Option.some.inj heq)).2]

/-- **`dirlookup`** finds the entry with the name. -/
lemma dirlookup (hrange : (a.node i).InRange V) (name : List UInt8) :
    wp (dirlookup k name)
      (Looked base τ a i name (direntSize * · < (a.node i).content.length)) Stop.Tame a := by
  have hdev : ¬ (a.node i).type = tDev := by rw [hdir]; decide
  rw [Col331.dirlookup, wp_bind, h.wp_type ht, if_neg (not_not.mpr hdir), wp_bind,
    h.wp_size ht hdev]
  refine wp_post (direntOffsets_eq 0 _ ▸ h.lookupLoop ht hdir hrange name _) ?_
  rintro (_ | ⟨k', off⟩) a' hr
  · exact ⟨hr.1, fun j hj => hr.2 j (mem_slots.mpr ⟨Nat.zero_le _, hj⟩)⟩
  · exact hr

/-- The loop of `dirlink`: the first free slot, or the end of the directory. -/
lemma emptyLoop (last : ℕ) (js : List ℕ) :
    wp (emptyLoop k last (js.map (direntSize * ·))) (fun off a' => a' = a ∧
        ((∃ j, off = direntSize * j ∧ (a.node i).entry j = none ∧
          direntSize * j + direntSize ≤ (a.node i).content.length) ∨
        (off = last ∧ ∀ j ∈ js, direntSize * j + direntSize ≤ (a.node i).content.length)))
      Stop.Tame a := by
  induction js with
  | nil => exact ⟨rfl, .inr ⟨rfl, nofun⟩⟩
  | cons j js ih =>
    rw [List.map_cons, Col331.emptyLoop]
    refine wp_seq (h.readDirent ht hdir (by decide) _) ?_
    rintro de a' ⟨rfl, rfl, hlen⟩
    split_ifs with h0
    · refine ⟨rfl, .inl ⟨j, rfl, ?_, hlen⟩⟩
      rw [Node.entry_eq hdir hlen, Dirent.entry, if_pos h0]
    · refine wp_post ih ?_
      rintro off a'' ⟨ha, hr⟩
      refine ⟨ha, hr.imp_right fun hr => ⟨hr.1, fun j' hj' => ?_⟩⟩
      rcases List.mem_cons.mp hj' with rfl | hj'
      · exact hlen
      · exact hr.2 j' hj'

/-- The loop of `isdirempty`, over the slots `js`. -/
lemma isdiremptyLoop (js : List ℕ) :
    wp (isdiremptyLoop k (js.map (direntSize * ·))) (fun b a' => a' = a ∧
      (b = true → ∀ j ∈ js, (a.node i).entry j = none)) Stop.Tame a := by
  induction js with
  | nil => exact ⟨rfl, nofun⟩
  | cons j js ih =>
    rw [List.map_cons, Col331.isdiremptyLoop]
    refine wp_seq (h.readDirent ht hdir (by decide) _) ?_
    rintro de a' ⟨rfl, rfl, hlen⟩
    split_ifs with h0
    · exact ⟨rfl, nofun⟩
    · refine wp_post ih ?_
      rintro b a'' ⟨ha, hr⟩
      refine ⟨ha, fun hb j' hj' => ?_⟩
      rcases List.mem_cons.mp hj' with rfl | hj'
      · rw [Node.entry_eq hdir hlen, Dirent.entry, if_pos (not_not.mp h0)]
      · exact hr hb j' hj'

/-- **`isdirempty`**: there are no entries behind the first two. -/
lemma isdirempty :
    wp (isdirempty k) (fun b a' => a' = a ∧
      (b = true → ∀ j, 2 ≤ j → (a.node i).entry j = none)) Stop.Tame a := by
  have hdev : ¬ (a.node i).type = tDev := by rw [hdir]; decide
  rw [Col331.isdirempty, wp_bind, h.wp_size ht hdev, Nat.mul_comm 2, direntOffsets_eq]
  refine wp_post (h.isdiremptyLoop ht hdir _) ?_
  rintro b a' ⟨ha, hr⟩
  refine ⟨ha, fun hb j hj => ?_⟩
  by_cases hlt : direntSize * j < (a.node i).content.length
  · exact hr hb j (mem_slots.mpr ⟨hj, hlt⟩)
  · exact Node.entry_of_length_le (not_lt.mp hlt)

/-- **`dirlink`** finds the name, or writes a new entry to a free slot. -/
lemma dirlink (hrange : (a.node i).InRange V) (name : List UInt8) (inum : ℕ) :
    wp (dirlink k name inum) (fun r a' =>
        (r = -1 ∧ Holds base τ a' ∧ ∃ j i', (a.node i).entry j = some (i', cstr dirsiz name) ∧
          (a'.node = a.node ∨
            ((a.node i').nlink = 0 ∧ a'.node = Function.update a.node i' Node.free))) ∨
        (r = 0 ∧ (a.node i).content.length % direntSize = 0 ∧
          (∀ j i', (a.node i).entry j ≠ some (i', cstr dirsiz name)) ∧
          ∃ j, (a.node i).entry j = none ∧ direntSize * j ≤ (a.node i).content.length ∧
            a' = a.setNode i ((a.node i).setEntry j ⟨UInt16.ofNat inum, strncpy name dirsiz⟩)))
      Stop.Tame a := by
  have hdev : ¬ (a.node i).type = tDev := by rw [hdir]; decide
  rw [Col331.dirlink]
  refine wp_seq (h.dirlookup ht hdir hrange name) ?_
  rintro (_ | ⟨k', off⟩) a' hr
  · obtain ⟨rfl, hr⟩ := hr
    have hmod : (a'.node i).content.length % direntSize = 0 := by
      by_contra hne
      have := (hr ((a'.node i).content.length / direntSize) (by
        simp only [direntSize, dirsiz] at *
        omega)).1
      simp only [direntSize, dirsiz] at *
      omega
    rw [wp_bind, h.wp_size ht hdev]
    refine wp_seq (direntOffsets_eq 0 (a'.node i).content.length ▸ h.emptyLoop ht hdir _ _) ?_
    rintro off a'' ⟨rfl, hoff⟩
    have hslot : ∃ j, off = direntSize * j ∧ (a''.node i).entry j = none ∧
        direntSize * j ≤ (a''.node i).content.length := by
      rcases hoff with ⟨j, h1, h2, h3⟩ | ⟨h1, -⟩
      · exact ⟨j, h1, h2, by omega⟩
      · refine ⟨_, h1, Node.entry_of_length_le ?_, ?_⟩
        all_goals
          simp only [direntOffsets, List.length_map, List.length_range, direntSize, dirsiz] at *
          omega
    obtain ⟨j, rfl, hnone, hle⟩ := hslot
    have hlen : (Dirent.mk (UInt16.ofNat inum) (strncpy name dirsiz)).bytes.length = direntSize := by
      simp [Dirent.bytes]
    refine wp_seq (h.writei ht hdev _ _) ?_
    rintro r a₂ (⟨rfl, rfl⟩ | ⟨rfl, -, rfl⟩)
    · rw [if_pos (by decide)]
      exact (by decide : Stop.Tame (.panic .dirlink))
    · rw [hlen, if_neg (not_not.mpr rfl)]
      refine .inr ⟨rfl, hmod, fun j' i' heq => ?_, j, hnone, hle, rfl⟩
      by_cases hlt : direntSize * j' < (a''.node i).content.length
      · exact (hr j' hlt).2 i' heq
      · rw [Node.entry_of_length_le (not_lt.mp hlt)] at heq
        cases heq
  · obtain ⟨j, i', -, hentry, hh, hn⟩ := hr
    refine wp_seq hh.iput ?_
    rintro _ a'' ⟨hh', hn'⟩
    refine .inl ⟨rfl, hh', j, i', hentry, ?_⟩
    rw [hn', Afs.putNodes, hn]
    split_ifs with hz
    · exact .inr ⟨hz.2.2, rfl⟩
    · exact .inl rfl

end Read

end Holds

end Col331
