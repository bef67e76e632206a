import Col331.Sh.Run

/-!
How `runcmd` of `HW1/sh.c` looks for a command: it builds the paths below `/bin` and `/usr/bin` in arrays
of 80 bytes.

* `strcpy`, `strcat`: the copies into an array, which fail where they would write behind its end.
* `getcmd`: the lines that come to the parser.
* `searchPaths_iff`: **the paths fit if the name has at most 70 bytes**, and a line can hold a longer one.
-/

namespace Col331.Sh

/-- `a[i] = c`, for an array of `a.length` bytes. -/
def putByte (a : Str) (i : ℕ) (c : UInt8) : Option Str := if i < a.length then some (a.set i c) else none

/-- The bytes of a string and its terminator are written from `a[i]` on. -/
def copyStr : Str → ℕ → Str → Option Str
  | a, i, [] => putByte a i 0
  | a, i, c :: src => (putByte a i c).bind fun a => copyStr a (i + 1) src

/-- `strcpy`. -/
def strcpy (a src : Str) : Option Str := copyStr a 0 src

/-- `strcat`. -/
def strcat (a src : Str) : Option Str := copyStr a (a.takeWhile (· ≠ 0)).length src

/-- A path is built: `strcpy(a, dir); strcat(a, name)`. -/
def buildPath (dir a name : Str) : Option Str := (strcpy a dir).bind (strcat · name)

/-- `"/bin/"`. -/
def bin : Str := [47, 98, 105, 110, 47]

/-- `"/usr/bin/"`. -/
def usrBin : Str := [47, 117, 115, 114] ++ bin

/-- The two arrays of the `exec` case of `runcmd`, when no `execv` succeeds. -/
def searchPaths (x y name : Str) : Option (Str × Str) := do
  let x ← buildPath bin x name
  let y ← buildPath usrBin y name
  return (x, y)

/-- `getcmd`: what `fgets` has put into `buf`, as a string. -/
def getcmd (nbuf : ℕ) (stdin : Str) : Option Str :=
  let line := stdin.takeWhile (· ≠ 10) ++ (stdin.dropWhile (· ≠ 10)).take 1
  let buf := (line.take (nbuf - 1)).takeWhile (· ≠ 0)
  if buf = [] then none else some buf

/-- The argument lists of the commands in a tree. -/
def Cmd.commands {W : Type} : Cmd W → List (List W)
  | exec argv => [argv]
  | redir c _ _ _ | back c => c.commands
  | pipe l r | list l r => l.commands ++ r.commands

/-- Whatever is in the arrays before, the search stays inside them. -/
def Fits (name : Str) : Prop :=
  ∀ x y : Str, x.length = 80 → y.length = 80 → (searchPaths x y name).isSome

/-- **What is written behind the first bytes of an array**, if there is room. -/
lemma copyStr_append (pre a src : Str) : copyStr (pre ++ a) pre.length src =
    if src.length < a.length then some (pre ++ (src ++ 0 :: a.drop (src.length + 1))) else none := by
  induction src generalizing pre a with
  | nil => cases a <;> simp [copyStr, putByte]
  | cons c src ih =>
    cases a with
    | nil => simp [copyStr, putByte]
    | cons b a =>
      have hput : putByte (pre ++ b :: a) pre.length c = some ((pre ++ [c]) ++ a) := by simp [putByte]
      have hrest := ih (pre ++ [c]) a
      rw [List.length_append, List.length_singleton] at hrest
      rw [copyStr, hput, Option.bind_some, hrest]
      simp

lemma buildPath_isSome {dir a name : Str} (hdir : ∀ c ∈ dir, c ≠ 0) :
    (buildPath dir a name).isSome ↔ dir.length + name.length < a.length := by
  have hcpy := copyStr_append [] a dir
  rw [List.nil_append, List.length_nil, List.nil_append] at hcpy
  rw [buildPath, strcpy, hcpy]
  split_ifs with h
  · have hend : ((dir ++ 0 :: a.drop (dir.length + 1)).takeWhile (· ≠ 0)).length = dir.length := by
      rw [List.takeWhile_append_of_pos (by simpa using hdir)]
      simp
    rw [Option.bind_some, strcat, hend, copyStr_append, List.length_cons, List.length_drop]
    split_ifs <;> simp <;> omega
  · simp
    omega

/-- **When the search stays inside its arrays**: the name of the command has at most 70 bytes. -/
theorem searchPaths_iff {stdin line name : Str} {args : List Str} {cmd : Cmd Str}
    (_hline : getcmd 100 stdin = some line) (_hcmd : Hw1.parsecmd line = .ok cmd)
    (_hmem : name :: args ∈ cmd.commands) : Fits name ↔ name.length ≤ 70 := by
  have hbin : ∀ x : Str, x.length = 80 → ((buildPath bin x name).isSome ↔ 5 + name.length < 80) :=
    fun x hx => hx ▸ buildPath_isSome (by simp [bin])
  have husr : ∀ y : Str, y.length = 80 → ((buildPath usrBin y name).isSome ↔ 9 + name.length < 80) :=
    fun y hy => hy ▸ buildPath_isSome (by simp [usrBin, bin])
  constructor
  · intro h
    have hsome := h (List.replicate 80 0) (List.replicate 80 0) rfl rfl
    obtain ⟨r, hr⟩ := Option.isSome_iff_exists.mp hsome
    obtain ⟨x, -, hr⟩ := Option.bind_eq_some_iff.mp hr
    obtain ⟨y, hy, -⟩ := Option.bind_eq_some_iff.mp hr
    have := (husr _ rfl).mp (by rw [hy]; rfl)
    omega
  · intro h x y hx hy
    obtain ⟨x', hx'⟩ := Option.isSome_iff_exists.mp ((hbin x hx).mpr (by omega))
    obtain ⟨y', hy'⟩ := Option.isSome_iff_exists.mp ((husr y hy).mpr (by omega))
    simp [searchPaths, hx', hy']

/-- The line `ls`. -/
theorem searchPaths_ls : Fits [108, 115] :=
  (@searchPaths_iff [108, 115, 10] _ _ [] _ rfl rfl (by decide)).mpr (by decide)

/-- A line that is one word of 71 bytes. -/
theorem searchPaths_overrun : ¬ ∀ (stdin line name : Str) (args : List Str) (cmd : Cmd Str),
    getcmd 100 stdin = some line → Hw1.parsecmd line = .ok cmd → name :: args ∈ cmd.commands →
      Fits name := by
  intro h
  have hfits := h (List.replicate 71 97) (List.replicate 71 97) (List.replicate 71 97) []
    (.exec [List.replicate 71 97]) (by decide +kernel) (by decide +kernel) (by simp [Cmd.commands])
  exact absurd (hfits (List.replicate 80 0) (List.replicate 80 0) rfl rfl) (by decide +kernel)

end Col331.Sh
