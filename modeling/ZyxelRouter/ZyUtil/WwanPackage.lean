import ZyxelRouter.Lib.Substrings
import ZyxelRouter.Lib.Versions

/-!
# The WWAN package

{lit}`zyUtilUpdateWWANPackage` of {lit}`flash.c` reads the revisions of two packages, one in a file of
the firmware and one in a flash volume, and installs the package with the newer revision.  The
revisions are compared as texts.  All allocations succeed.

Main results:

- Theorem {lit}`packageRevision_eq`: the revision of a header is read.
- Theorem {lit}`installs_iff`: which package is installed.
- Theorem {lit}`update_newer_iff`: when the newer package is installed.
- Theorem {lit}`update_newer_of_widths`: it is if components at one place have one width.
-/

namespace ZyxelRouter
namespace ZyUtil

open Lib

/-! ## The function -/

/-- {lit}`WWANPACKAGE_HEADER_LEN`. -/
def wwanpackageHeaderLen : Nat := 32

/-- {lit}`sizeof(fwPkgRevision)` and {lit}`sizeof(flashPkgRevision)`. -/
def pkgRevisionSize : Nat := 16

def revisionWord : List Char := "REVISION:".toList

def endWord : List Char := "END".toList

/-- The terminator of a text. -/
def nul : Char := Char.ofNat 0

/-- The text in a buffer. -/
def textOf (buf : List Char) : List Char :=
  buf.takeWhile (· ≠ nul)

/-- {lit}`strncpy` into a buffer of {lit}`n` bytes. -/
def strncpyInto (src : List Char) (n : Nat) : List Char :=
  (textOf src ++ List.replicate n nul).take n

/-- A dot or a digit. -/
def isRevisionChar (c : Char) : Bool :=
  c = '.' || c.isDigit

/-- What surrounds a call: the file of the firmware if it can be opened, what is read from the flash
volume if it is found, and whether the file of the running package can be opened, written and copied
to. -/
structure WwanEnv where
  fwPackage : Option (List Char)
  flashPackage : Option (List Char)
  runOpens : Bool
  runWrites : Bool
  copies : Bool

/-- What becomes of the running package. -/
inductive RunPackage where
  | unchanged
  | removed
  | fromFlash (package : List Char)
  | fromFirmware
  /-- A revision overflows its buffer, or the package in flash has no end. -/
  | outOfBounds
deriving DecidableEq, Repr

/-- The revision in a header, empty if there is none. -/
def packageRevision (packageBuf : List Char) : Except (Int × RunPackage) (List Char) :=
  match Substr.strstr revisionWord (textOf packageBuf) with
  | none => .ok []
  | some (_, bufPoint) =>
      let revision := (bufPoint.dropWhile (· = ' ')).takeWhile isRevisionChar
      if revision.length < pkgRevisionSize then .ok revision else .error (0, .outOfBounds)

/-- The revision of the package of the firmware. -/
def fwPkgRevision (env : WwanEnv) : Except (Int × RunPackage) (List Char) :=
  match env.fwPackage with
  | none => .ok []
  | some file =>
      if file.length < wwanpackageHeaderLen then .error (1, .unchanged)
      else packageRevision (file.take wwanpackageHeaderLen)

/-- The revision of the package in flash. -/
def flashPkgRevision (env : WwanEnv) : Except (Int × RunPackage) (List Char) :=
  match env.flashPackage with
  | none => .ok []
  | some flashwwan => packageRevision (strncpyInto flashwwan wwanpackageHeaderLen)

/-- The package that is installed; {lit}`strcmp` orders texts by their first difference. -/
def useNewerRevision (env : WwanEnv) (fwPkgRevision flashPkgRevision : List Char) :
    Int × RunPackage :=
  if fwPkgRevision = [] ∧ flashPkgRevision = [] then (1, .unchanged)
  else if fwPkgRevision < flashPkgRevision then
    match Substr.strstr endWord (textOf (env.flashPackage.getD [])) with
    | none => (0, .outOfBounds)
    | some (package, _) =>
        if !env.runOpens then (1, .removed)
        else if !env.runWrites then (1, .removed)
        else (0, .fromFlash package)
  else (0, if env.copies then .fromFirmware else .removed)

/-- {lit}`zyUtilUpdateWWANPackage`: the result, and what becomes of the running package. -/
def zyUtilUpdateWWANPackage (env : WwanEnv) : Int × RunPackage :=
  let update : Except (Int × RunPackage) (Int × RunPackage) := do
    let fw ← fwPkgRevision env
    let flash ← flashPkgRevision env
    pure (useNewerRevision env fw flash)
  match update with
  | .ok result => result
  | .error result => result

/-! ## Headers -/

/-- A revision of at most 15 characters. -/
structure Revision where
  components : List (List Char)
  ne : components ≠ []
  numbers : ∀ u ∈ components, Version.IsNumber u
  short : (Version.dotted components).length ≤ 15

/-- The text of a revision. -/
def Revision.text (revision : Revision) : List Char :=
  Version.dotted revision.components

/-- The first {lit}`REVISION:` of a header is followed by spaces, the revision, and something else
than dots and digits. -/
def HasRevision (header : List Char) (revision : Revision) : Prop :=
  ∃ front spaces stop behind,
    header = front ++ revisionWord ++ (List.replicate spaces ' ' ++ revision.text ++ stop :: behind) ∧
      Substr.First revisionWord front header ∧ nul ∉ front ∧ isRevisionChar stop = false

theorem isRevisionChar_of_mem_text {revision : Revision} {c : Char} (hc : c ∈ revision.text) :
    isRevisionChar c = true := by
  rcases revision with ⟨components, hne, hnumbers, hshort⟩
  unfold Revision.text at hc
  dsimp only at hc
  clear hshort
  induction components with
  | nil => exact absurd rfl hne
  | cons u components ih =>
      rw [Version.dotted_cons, List.mem_append] at hc
      rcases hc with hc | hc
      · simp [isRevisionChar, (hnumbers u List.mem_cons_self).digits c hc]
      · rw [Version.dottedRest, List.mem_flatMap] at hc
        rcases hc with ⟨v, hv, hc⟩
        rcases List.mem_cons.mp hc with rfl | hc
        · rfl
        · simp [isRevisionChar, (hnumbers v (List.mem_cons_of_mem u hv)).digits c hc]

theorem text_head (revision : Revision) : ∃ c cs, revision.text = c :: cs ∧ c.isDigit = true := by
  rcases List.exists_cons_of_ne_nil revision.ne with ⟨u, components, hcons⟩
  have hu := revision.numbers u (by rw [hcons]; exact List.mem_cons_self)
  rcases List.exists_cons_of_ne_nil hu.ne with ⟨c, cs, hucons⟩
  have hdigit : c.isDigit = true := hu.digits c (by rw [hucons]; exact List.mem_cons_self)
  refine ⟨c, cs ++ Version.dottedRest components, ?_, hdigit⟩
  rw [Revision.text, hcons, Version.dotted_cons, hucons, List.cons_append]

/-- The revision of a header is read. -/
theorem packageRevision_eq {header : List Char} {revision : Revision}
    (h : HasRevision header revision) : packageRevision header = .ok revision.text := by
  rcases h with ⟨front, spaces, stop, behind, heq, hfirst, hfront, hstop⟩
  have hkept : ∀ c ∈ front ++ revisionWord ++ (List.replicate spaces ' ' ++ revision.text),
      decide (c ≠ nul) = true := by
    intro c hc
    rw [decide_eq_true_iff]
    rintro rfl
    rw [List.mem_append, List.mem_append, List.mem_append] at hc
    rcases hc with (hc | hc) | hc | hc
    · exact hfront hc
    · revert hc
      decide
    · have := List.eq_of_mem_replicate hc
      revert this
      decide
    · have := isRevisionChar_of_mem_text hc
      revert this
      decide
  have htext : textOf header = front ++ revisionWord ++
      (List.replicate spaces ' ' ++ revision.text ++ textOf (stop :: behind)) := by
    rw [heq, ← List.append_assoc, textOf, List.takeWhile_append_of_pos hkept, List.append_assoc,
      textOf]
  have hfound : Substr.strstr revisionWord (textOf header) =
      some (front, List.replicate spaces ' ' ++ revision.text ++ textOf (stop :: behind)) := by
    rw [Substr.strstr_eq_some_iff]
    constructor
    · exact htext
    · intro p q hpq
      have hall := List.takeWhile_append_dropWhile (p := (· ≠ nul)) (l := header)
      change textOf header ++ _ = header at hall
      rw [hpq, List.append_assoc] at hall
      exact hfirst p _ hall.symm
  rcases text_head revision with ⟨c, cs, hcons, hc⟩
  have hcspace : ¬ c = ' ' := by
    rintro rfl
    revert hc
    decide
  have hspaces : (List.replicate spaces ' ' ++ revision.text ++ textOf (stop :: behind)).dropWhile
      (· = ' ') = revision.text ++ textOf (stop :: behind) := by
    rw [List.append_assoc, List.dropWhile_append_of_pos, hcons]
    · simp [hcspace]
    · intro d hd
      simpa using List.eq_of_mem_replicate hd
  have hrest : (textOf (stop :: behind)).takeWhile isRevisionChar = [] := by
    unfold textOf
    by_cases hnul : stop = nul
    · simp [hnul]
    · simp [hnul, hstop]
  have hrevision : (revision.text ++ textOf (stop :: behind)).takeWhile isRevisionChar =
      revision.text := by
    rw [List.takeWhile_append_of_pos (fun d hd => isRevisionChar_of_mem_text hd), hrest,
      List.append_nil]
  have hshort : revision.text.length < pkgRevisionSize := Nat.lt_succ_of_le revision.short
  simp only [packageRevision, hfound, hspaces, hrevision, if_pos hshort]

/-! ## The installed package -/

/-- Both packages are read, and their headers have revisions. -/
structure Headers (env : WwanEnv) (fw flash : Revision) : Prop where
  fwHeader : ∃ file, env.fwPackage = some file ∧ wwanpackageHeaderLen ≤ file.length ∧
    HasRevision (file.take wwanpackageHeaderLen) fw
  flashHeader : ∃ flashwwan, env.flashPackage = some flashwwan ∧
    HasRevision (strncpyInto flashwwan wwanpackageHeaderLen) flash

/-- The package in flash has an end, and the file of the running package can be written. -/
def CanInstall (env : WwanEnv) : Prop :=
  endWord <:+: textOf (env.flashPackage.getD []) ∧ env.runOpens = true ∧ env.runWrites = true

/-- The package is installed from flash. -/
def Installs (env : WwanEnv) : Prop :=
  ∃ package, (zyUtilUpdateWWANPackage env).2 = .fromFlash package

variable {env : WwanEnv} {fw flash : Revision}

theorem zyUtilUpdateWWANPackage_eq (h : Headers env fw flash) :
    zyUtilUpdateWWANPackage env = useNewerRevision env fw.text flash.text := by
  rcases h.fwHeader with ⟨file, hfile, hlen, hfw⟩
  rcases h.flashHeader with ⟨flashwwan, hflashwwan, hflash⟩
  have hfwRevision : fwPkgRevision env = .ok fw.text := by
    rw [fwPkgRevision, hfile]
    simp only [if_neg (Nat.not_lt.mpr hlen), packageRevision_eq hfw]
  have hflashRevision : flashPkgRevision env = .ok flash.text := by
    rw [flashPkgRevision, hflashwwan]
    exact packageRevision_eq hflash
  rw [zyUtilUpdateWWANPackage, hfwRevision, hflashRevision]
  rfl

/-- The package is installed from flash if the text of its revision comes last and it can be
installed. -/
theorem installs_iff (h : Headers env fw flash) :
    Installs env ↔ fw.text < flash.text ∧ CanInstall env := by
  have hne : ¬ (fw.text = [] ∧ flash.text = []) := by
    rcases text_head fw with ⟨c, cs, hcons, _⟩
    rw [hcons]
    simp
  rw [Installs, zyUtilUpdateWWANPackage_eq h, useNewerRevision, if_neg hne, CanInstall]
  by_cases hlt : fw.text < flash.text
  · rw [if_pos hlt]
    cases hend : Substr.strstr endWord (textOf (env.flashPackage.getD [])) with
    | none => simp [hlt, Substr.strstr_eq_none_iff.mp hend]
    | some found =>
        have hinfix : endWord <:+: textOf (env.flashPackage.getD []) :=
          ⟨found.1, found.2, (Substr.eq_of_strstr hend).symm⟩
        cases hopens : env.runOpens with
        | false => simp
        | true =>
            cases hwrites : env.runWrites with
            | false => simp
            | true => simp [hlt, hinfix]
  · rw [if_neg hlt]
    cases hcopies : env.copies with
    | false => simp [hlt]
    | true => simp [hlt]

/-- When the package is installed from flash exactly if its revision is the newer one; {lit}`zeros`
tells whether missing components count as zeros. -/
theorem update_newer_iff (zeros : Bool) (h : Headers env fw flash) :
    (Installs env ↔
      Version.older zeros (Version.values fw.components) (Version.values flash.components) = true) ↔
      (CanInstall env ∧ Version.TextAgrees zeros fw.components flash.components) ∨
        (¬ CanInstall env ∧ Version.older zeros (Version.values fw.components)
          (Version.values flash.components) = false) := by
  have hagrees := Version.dotted_lt_iff_older_iff zeros fw.numbers flash.numbers
  rw [installs_iff h]
  by_cases hcan : CanInstall env
  · simp only [hcan, and_true, true_and, not_true_eq_false, false_and, or_false]
    exact hagrees
  · simp [hcan]

/-- A package that can be installed is installed exactly if its revision is the newer one, when
components at one place have one width. -/
theorem update_newer_of_widths (h : Headers env fw flash) (hcan : CanInstall env)
    (hwidth : ∀ pair ∈ fw.components.zip flash.components, pair.1.length = pair.2.length) :
    Installs env ↔
      Version.older false (Version.values fw.components) (Version.values flash.components) = true := by
  have hagrees := Version.textAgrees_of_widths fw.numbers flash.numbers hwidth
  have horder := (Version.dotted_lt_iff_older_iff false fw.numbers flash.numbers).mpr hagrees
  rw [installs_iff h]
  simp only [hcan, and_true]
  exact horder

/-- The revision {lit}`1.9`. -/
def revision19 : Revision where
  components := [['1'], ['9']]
  ne := by decide
  numbers := by
    intro u hu
    simp only [List.mem_cons, List.not_mem_nil, or_false] at hu
    rcases hu with rfl | rfl
    · exact ⟨by decide, List.all_eq_true.mp (by decide)⟩
    · exact ⟨by decide, List.all_eq_true.mp (by decide)⟩
  short := by decide

/-- The revision {lit}`1.10`. -/
def revision110 : Revision where
  components := [['1'], ['1', '0']]
  ne := by decide
  numbers := by
    intro u hu
    simp only [List.mem_cons, List.not_mem_nil, or_false] at hu
    rcases hu with rfl | rfl
    · exact ⟨by decide, List.all_eq_true.mp (by decide)⟩
    · exact ⟨by decide, List.all_eq_true.mp (by decide)⟩
  short := by decide

/-- The firmware has revision {lit}`1.9`, the flash {lit}`1.10`. -/
def newerInFlash : WwanEnv where
  fwPackage := some "WWAN REVISION: 1.9\n0000000000000END".toList
  flashPackage := some "WWAN REVISION: 1.10\n000000000000END".toList
  runOpens := true
  runWrites := true
  copies := true

theorem headers_newerInFlash : Headers newerInFlash revision19 revision110 := by
  constructor
  · have hfound : Substr.strstr revisionWord "WWAN REVISION: 1.9\n0000000000000".toList =
        some ("WWAN ".toList, " 1.9\n0000000000000".toList) := by decide
    exact ⟨_, rfl, by decide, "WWAN ".toList, 1, '\n', "0000000000000".toList, by decide,
      Substr.first_of_strstr hfound, by decide, by decide⟩
  · have hfound : Substr.strstr revisionWord "WWAN REVISION: 1.10\n000000000000".toList =
        some ("WWAN ".toList, " 1.10\n000000000000".toList) := by decide
    exact ⟨_, rfl, "WWAN ".toList, 1, '\n', "000000000000".toList, by decide,
      Substr.first_of_strstr hfound, by decide, by decide⟩

theorem update_newer_newerInFlash :
    (Installs newerInFlash ↔
      Version.older false (Version.values revision19.components)
        (Version.values revision110.components) = true) ↔
      (CanInstall newerInFlash ∧
        Version.TextAgrees false revision19.components revision110.components) ∨
        (¬ CanInstall newerInFlash ∧ Version.older false (Version.values revision19.components)
          (Version.values revision110.components) = false) :=
  update_newer_iff false headers_newerInFlash

/-- Revision {lit}`1.10` in flash is the newer one, but the firmware has its package installed. -/
theorem update_keeps_older :
    Headers newerInFlash revision19 revision110 ∧
      ¬ (Installs newerInFlash ↔
        Version.older false (Version.values revision19.components)
          (Version.values revision110.components) = true) := by
  have hfirmware : zyUtilUpdateWWANPackage newerInFlash = (0, .fromFirmware) := by
    decide +kernel
  refine ⟨headers_newerInFlash, ?_⟩
  intro hinstalls
  rcases hinstalls.mpr (by decide +kernel) with ⟨package, hflash⟩
  rw [hfirmware] at hflash
  cases hflash

end ZyUtil
end ZyxelRouter
