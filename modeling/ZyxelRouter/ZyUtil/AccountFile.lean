import Mathlib.Data.List.TakeWhile
import ZyxelRouter.Lib.TextLines

/-!
# Account files

An account file has one line per account, which starts with the name of the account and a
colon.  The utility library looks up the line of an account and removes it.  Both functions read
the file with {lit}`fgets` into a buffer of 513 bytes, so a longer line comes in several chunks.

Main results:

- Theorem {lit}`zyRemoveAccountInfoFromFile_lines_iff`: when a removal leaves exactly the lines
  of the other accounts.
-/

namespace ZyxelRouter
namespace ZyUtil

open Lib

/-! ## C strings -/

/-- The character {lit}`\n`. -/
def newline : UInt8 := 0x0A

/-- The character {lit}`:`. -/
def colon : UInt8 := 0x3A

/-- What a string function sees of a buffer: the bytes in front of the first zero. -/
def cString (buf : List UInt8) : List UInt8 :=
  buf.takeWhile (· ≠ 0)

/-- Whether {lit}`strncmp` returns zero on two strings given without their terminators. -/
def strncmpZero : Nat → List UInt8 → List UInt8 → Bool
  | 0, _, _ => true
  | _ + 1, [], [] => true
  | n + 1, a :: s, b :: t => a == b && strncmpZero n s t
  | _ + 1, _, _ => false

theorem cString_eq_self {buf : List UInt8} (h : 0 ∉ buf) : cString buf = buf := by
  apply List.takeWhile_eq_self_iff.mpr
  intro b hb
  have hne : b ≠ 0 := fun heq => h (heq ▸ hb)
  simpa using hne

/-- Compared over the length of the first string, the first one is a beginning of the other. -/
theorem strncmpZero_iff_prefix (s t : List UInt8) :
    strncmpZero s.length s t = true ↔ s <+: t := by
  induction s generalizing t with
  | nil => simp [strncmpZero]
  | cons a s ih =>
      cases t with
      | nil => simp [strncmpZero]
      | cons b t => simp [strncmpZero, ih, List.cons_prefix_cons]

/-! ## Files -/

/-- The regular files by path. -/
abbrev Files := String → Option (List UInt8)

/-- Create or overwrite a file. -/
def Files.put (files : Files) (path : String) (bytes : List UInt8) : Files :=
  fun other => if other = path then some bytes else files other

/-- {lit}`remove`. -/
def Files.remove (files : Files) (path : String) : Files :=
  fun other => if other = path then none else files other

/-- The chunks that {lit}`fgets` delivers into a buffer of 513 bytes. -/
def chunks (bytes : List UInt8) : List (List UInt8) :=
  pieces newline 512 bytes

/-- Which of the calls whose failure is handled do succeed; in the copy loop, per round. -/
structure FileEnv where
  fopenFile : Bool
  malloc : Bool
  fopenTmp : Bool
  copyFopenSrc : Bool
  copyMalloc : Bool
  copyFopenDst : Bool
  fread : Nat → Bool
  fwrite : Nat → Bool

/-- The constant {lit}`BUFFER_SIZE`. -/
def bufferSize : Nat := 2048

/-- The copy loop of {lit}`zos_copyFile` with what is left of the source and what the destination
has so far; it stops at the first failing round. -/
def copyLoop (env : FileEnv) : Nat → Nat → List UInt8 → List UInt8 → List UInt8 × Bool
  | 0, _, _, dst => (dst, true)
  | fuel + 1, round, remain, dst =>
      if remain = [] then (dst, true)
      else if !env.fread round then (dst, false)
      else if !env.fwrite round then (dst, false)
      else copyLoop env fuel (round + 1) (remain.drop bufferSize) (dst ++ remain.take bufferSize)

/-- {lit}`zos_copyFile` with {lit}`MOVE` between regular files. -/
def zosCopyFile (env : FileEnv) (dst src : String) (files : Files) : Files × Bool :=
  match files src with
  | none => (files, false)
  | some bytes =>
      if !env.copyFopenSrc then (files, false)
      else if !env.copyMalloc then (files, false)
      else if !env.copyFopenDst then (files, false)
      else
        let (copied, ok) := copyLoop env bytes.length 0 bytes []
        if !ok then (files.put dst copied, false)
        else ((files.put dst copied).remove src, true)

/-! ## Looking up and removing an account -/

/-- The two comparisons of {lit}`zyGetAccountInfoFromFile` on a chunk: it starts with the name,
and the next byte of the buffer is a colon. -/
def accepts (username chunk : List UInt8) : Bool :=
  strncmpZero username.length username (cString chunk) &&
    (chunk ++ [0])[username.length]? == some colon

/-- {lit}`zyGetAccountInfoFromFile`. -/
def zyGetAccountInfoFromFile (env : FileEnv) (username : List UInt8) (filePath : String)
    (files : Files) : Option (List UInt8) :=
  match files filePath with
  | none => none
  | some bytes =>
      if !env.fopenFile then none
      else (chunks bytes).find? (accepts username)

/-- The comparison of {lit}`zyRemoveAccountInfoFromFile`: a chunk that is kept. -/
def keeps (username chunk : List UInt8) : Bool :=
  !strncmpZero username.length username (cString chunk)

/-- {lit}`zyRemoveAccountInfoFromFile`; the flag tells whether it came to its end with the
temporary file moved. -/
def zyRemoveAccountInfoFromFile (env : FileEnv) (username : List UInt8) (filePath : String)
    (files : Files) : Files × Bool :=
  match files filePath with
  | none => (files, false)
  | some bytes =>
      let tmpFilePath := filePath ++ ".tmp"
      if !env.fopenFile then (files, false)
      else if !env.malloc then (files, false)
      else if !env.fopenTmp then (files, false)
      else
        let kept := ((chunks bytes).filter (keeps username)).map cString
        zosCopyFile env filePath tmpFilePath (files.put tmpFilePath kept.flatten)

/-- A line belongs to an account if the lookup accepts it: if it accepts the first chunk of
it. -/
def belongs (username line : List UInt8) : Bool :=
  accepts username (fgets newline 512 line).1

/-- Every chunk of a line of the account starts with the name, and no chunk of another line
does. -/
def ChunksAgree (username bytes : List UInt8) : Prop :=
  ∀ line ∈ lines newline bytes, ∀ chunk ∈ chunks line,
    (username <+: chunk ↔ belongs username line = true)

/-- A line without an inner newline belongs to an account whose name is shorter than a chunk if it
starts with the name followed by a colon. -/
theorem belongs_iff {username line : List UInt8}
    (hshort : username.length < 512) (hline : newline ∉ line.dropLast) (htext : 0 ∉ line) :
    belongs username line = true ↔ username ++ [colon] <+: line := by
  have hfirst : (fgets newline 512 line).1 = line.take 512 := fgets_line hline
  have htake : 0 ∉ line.take 512 := fun hmem => htext (List.mem_of_mem_take hmem)
  rw [belongs, hfirst, accepts, cString_eq_self htake, Bool.and_eq_true, strncmpZero_iff_prefix,
    beq_iff_eq]
  constructor
  · rintro ⟨⟨rest, hrest⟩, hcolon⟩
    rw [← hrest, List.append_assoc, List.getElem?_append_right (Nat.le_refl _), Nat.sub_self] at hcolon
    cases rest with
    | nil => simp [colon] at hcolon
    | cons c rest =>
        have hc : c = colon := by simpa using hcolon
        refine List.IsPrefix.trans ⟨rest, ?_⟩ (List.take_prefix 512 line)
        rw [← hrest, hc, List.append_assoc, List.singleton_append]
  · rintro ⟨rest, rfl⟩
    obtain ⟨k, hk⟩ : ∃ k, 512 = (username ++ [colon]).length + k :=
      ⟨512 - (username ++ [colon]).length, by rw [List.length_append]; simp; omega⟩
    rw [hk, List.take_length_add_append, List.append_assoc]
    refine ⟨⟨_, rfl⟩, ?_⟩
    rw [List.append_assoc, List.getElem?_append_right (Nat.le_refl _), Nat.sub_self]
    rfl

/-! ## What a removal leaves -/

theorem copyLoop_ok (env : FileEnv) :
    ∀ (fuel round : Nat) (remain dst copied : List UInt8),
      remain.length ≤ fuel →
      copyLoop env fuel round remain dst = (copied, true) →
      copied = dst ++ remain := by
  intro fuel
  induction fuel with
  | zero =>
      intro round remain dst copied hfuel hrun
      have hnil : remain = [] := List.length_eq_zero_iff.mp (Nat.le_zero.mp hfuel)
      simp only [copyLoop, Prod.mk.injEq] at hrun
      rw [hnil, List.append_nil, hrun.1]
  | succ fuel ih =>
      intro round remain dst copied hfuel hrun
      simp only [copyLoop] at hrun
      split_ifs at hrun with hnil hread hwrite
      · simp only [Prod.mk.injEq] at hrun
        rw [hnil, List.append_nil, hrun.1]
      · simp at hrun
      · simp at hrun
      · have hpos : 0 < remain.length := List.length_pos_iff.mpr hnil
        have hdrop : (remain.drop bufferSize).length ≤ fuel := by
          rw [List.length_drop]
          simp only [bufferSize]
          omega
        rw [ih _ _ _ _ hdrop hrun, List.append_assoc, List.take_append_drop]

/-- A successful move leaves the bytes of the source in the destination. -/
theorem zosCopyFile_ok {env : FileEnv} {dst src : String} {files files' : Files}
    {bytes : List UInt8}
    (hsrc : files src = some bytes) (hne : dst ≠ src)
    (hrun : zosCopyFile env dst src files = (files', true)) :
    files' dst = some bytes := by
  simp only [zosCopyFile, hsrc] at hrun
  split_ifs at hrun with h1 h2 h3 hok <;> simp only [Prod.mk.injEq, Bool.false_eq_true,
    and_false, and_true] at hrun
  have hcopy : copyLoop env bytes.length 0 bytes [] =
      ((copyLoop env bytes.length 0 bytes []).1, true) := by
    apply Prod.ext
    · rfl
    · simpa using hok
  have hbytes := copyLoop_ok env _ _ _ _ _ (Nat.le_refl _) hcopy
  rw [← hrun]
  simp only [Files.remove, Files.put, if_neg hne, if_pos, hbytes, List.nil_append]

theorem path_ne_tmp (path : String) : path ≠ path ++ ".tmp" := by
  intro heq
  have hlen := congrArg String.length heq
  simp at hlen

/-- A successful removal leaves the kept chunks. -/
theorem zyRemoveAccountInfoFromFile_ok {env : FileEnv} {username : List UInt8} {filePath : String}
    {files : Files} {bytes : List UInt8}
    (hfile : files filePath = some bytes) (htext : 0 ∉ bytes)
    (hdone : (zyRemoveAccountInfoFromFile env username filePath files).2 = true) :
    (zyRemoveAccountInfoFromFile env username filePath files).1 filePath =
      some ((chunks bytes).filter (keeps username)).flatten := by
  have hmem : ∀ chunk ∈ (chunks bytes).filter (keeps username), 0 ∉ chunk := by
    intro chunk hchunk hzero
    apply htext
    have hflat : (chunks bytes).flatten = bytes := flatten_pieces (by omega) bytes
    rw [← hflat]
    exact List.mem_flatten.mpr ⟨chunk, List.mem_of_mem_filter hchunk, hzero⟩
  have hkept : ((chunks bytes).filter (keeps username)).map cString =
      (chunks bytes).filter (keeps username) := by
    conv_rhs => rw [← List.map_id ((chunks bytes).filter (keeps username))]
    exact List.map_congr_left (fun chunk hchunk => cString_eq_self (hmem chunk hchunk))
  revert hdone
  simp only [zyRemoveAccountInfoFromFile, hfile]
  split_ifs with h1 h2 h3
  · intro hdone
    simp at hdone
  · intro hdone
    simp at hdone
  · intro hdone
    simp at hdone
  · intro hdone
    rw [hkept] at hdone ⊢
    apply zosCopyFile_ok _ (path_ne_tmp filePath) (Prod.ext rfl hdone)
    simp [Files.put]

/-- A removal that succeeds leaves exactly the lines of the other accounts, in their order, if
and only if every chunk of a line of the account starts with the name and no chunk of another
line does. -/
theorem zyRemoveAccountInfoFromFile_lines_iff (env : FileEnv) (username : List UInt8)
    (filePath : String) (files : Files) (bytes : List UInt8)
    (hfile : files filePath = some bytes) (htext : 0 ∉ bytes)
    (hdone : (zyRemoveAccountInfoFromFile env username filePath files).2 = true) :
    (zyRemoveAccountInfoFromFile env username filePath files).1 filePath =
        some ((lines newline bytes).filter (fun line => !belongs username line)).flatten ↔
      ChunksAgree username bytes := by
  have htextLine : ∀ line ∈ lines newline bytes, ∀ chunk ∈ chunks line, 0 ∉ chunk := by
    intro line hline chunk hchunk hzero
    apply htext
    have hbytes : (lines newline bytes).flatten = bytes := flatten_lines bytes
    have hpieces : (chunks line).flatten = line := flatten_pieces (by omega) line
    rw [← hbytes]
    refine List.mem_flatten.mpr ⟨line, hline, ?_⟩
    rw [← hpieces]
    exact List.mem_flatten.mpr ⟨chunk, hchunk, hzero⟩
  rw [zyRemoveAccountInfoFromFile_ok hfile htext hdone, Option.some_inj, chunks,
    filter_pieces_eq_iff (by omega)]
  refine forall₂_congr (fun line hline => forall₂_congr (fun chunk hchunk => ?_))
  rw [← strncmpZero_iff_prefix, keeps, cString_eq_self (htextLine line hline chunk hchunk)]
  cases strncmpZero username.length username chunk <;> cases belongs username line <;> simp

/-- Every call succeeds. -/
def smoothEnv : FileEnv where
  fopenFile := true
  malloc := true
  fopenTmp := true
  copyFopenSrc := true
  copyMalloc := true
  copyFopenDst := true
  fread := fun _ => true
  fwrite := fun _ => true

/-- With every call succeeding a removal comes to its end. -/
theorem zyRemoveAccountInfoFromFile_smooth {username : List UInt8} {filePath : String}
    {files : Files} {bytes : List UInt8} (hfile : files filePath = some bytes) :
    (zyRemoveAccountInfoFromFile smoothEnv username filePath files).2 = true := by
  have hcopy : ∀ (fuel round : Nat) (remain dst : List UInt8),
      (copyLoop smoothEnv fuel round remain dst).2 = true := by
    intro fuel
    induction fuel with
    | zero =>
        intro round remain dst
        rfl
    | succ fuel ih =>
        intro round remain dst
        by_cases hnil : remain = []
        · simp [copyLoop, hnil]
        · have hread : smoothEnv.fread round = true := rfl
          have hwrite : smoothEnv.fwrite round = true := rfl
          simp only [copyLoop, hnil, hread, hwrite, Bool.not_true, Bool.false_eq_true, if_false]
          exact ih _ _ _
  have hopen : smoothEnv.fopenFile = true ∧ smoothEnv.malloc = true ∧ smoothEnv.fopenTmp = true ∧
      smoothEnv.copyFopenSrc = true ∧ smoothEnv.copyMalloc = true ∧
      smoothEnv.copyFopenDst = true := ⟨rfl, rfl, rfl, rfl, rfl, rfl⟩
  simp [zyRemoveAccountInfoFromFile, hfile, zosCopyFile, Files.put, hopen, hcopy]

/-- The bytes of a text in ASCII. -/
def ascii (text : List Char) : List UInt8 :=
  text.map (fun c => UInt8.ofNat c.toNat)

/-- The account file {lit}`/etc/passwd` with the given text, and no other file. -/
def passwd (bytes : List UInt8) : Files :=
  fun path => if path = "/etc/passwd" then some bytes else none

/-- The lines {lit}`al:x` and {lit}`bob:y`. -/
def alAndBob : List UInt8 :=
  ascii ['a', 'l', ':', 'x', '\n', 'b', 'o', 'b', ':', 'y', '\n']

/-- Removing {lit}`al` leaves the line of {lit}`bob`. -/
theorem zyRemoveAccountInfoFromFile_other :
    (zyRemoveAccountInfoFromFile smoothEnv (ascii ['a', 'l']) "/etc/passwd"
        (passwd alAndBob)).1 "/etc/passwd" =
      some ((lines newline alAndBob).filter
        (fun line => !belongs (ascii ['a', 'l']) line)).flatten := by
  refine (zyRemoveAccountInfoFromFile_lines_iff smoothEnv _ _ _ alAndBob rfl ?_ ?_).mpr ?_
  · decide
  · exact zyRemoveAccountInfoFromFile_smooth rfl
  · unfold ChunksAgree
    decide

/-- The lines {lit}`bob:x` and {lit}`bobby:y`. -/
def bobAndBobby : List UInt8 :=
  ascii ['b', 'o', 'b', ':', 'x', '\n', 'b', 'o', 'b', 'b', 'y', ':', 'y', '\n']

/-- Removing {lit}`bob` also removes {lit}`bobby`. -/
theorem zyRemoveAccountInfoFromFile_removes_bobby :
    (zyRemoveAccountInfoFromFile smoothEnv (ascii ['b', 'o', 'b']) "/etc/passwd"
        (passwd bobAndBobby)).2 = true ∧
      (zyRemoveAccountInfoFromFile smoothEnv (ascii ['b', 'o', 'b']) "/etc/passwd"
          (passwd bobAndBobby)).1 "/etc/passwd" = some [] ∧
      ((lines newline bobAndBobby).filter
        (fun line => !belongs (ascii ['b', 'o', 'b']) line)).flatten =
          ascii ['b', 'o', 'b', 'b', 'y', ':', 'y', '\n'] := by
  have hdone : (zyRemoveAccountInfoFromFile smoothEnv (ascii ['b', 'o', 'b']) "/etc/passwd"
      (passwd bobAndBobby)).2 = true := zyRemoveAccountInfoFromFile_smooth rfl
  refine ⟨hdone, ?_, by decide⟩
  have hfile : passwd bobAndBobby "/etc/passwd" = some bobAndBobby := rfl
  rw [zyRemoveAccountInfoFromFile_ok hfile (by decide) hdone]
  decide

end ZyUtil
end ZyxelRouter
