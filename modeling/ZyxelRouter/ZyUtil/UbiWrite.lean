import ZyxelRouter.ZyUtil.MtdRoundTrip

/-!
# Writing a UBI volume

{lit}`_zyUtilWriteBufToFlash_ubi` writes a buffer in chunks of the size of an erase block, and each chunk
with as many calls of {lit}`write` as it takes.

Main results:

- Theorem {lit}`ubiWrite_spec`: the calls for one chunk write it in order.
- Theorem {lit}`overrun`: a run that has counted too little goes over the end of the buffer.
- Theorem {lit}`ubiWrite_exact_iff`: the buffer is written exactly if no call for a chunk is short.
-/

namespace ZyxelRouter
namespace ZyUtil

/-! ## The function -/

/-- A call of {lit}`write`: the offset of its bytes in the buffer, their number and the result. -/
structure WriteCall where
  pos : Nat
  count : Nat
  ret : Int

/-- A UBI volume: whether it can be opened and updated, and what the calls of {lit}`write` return, by their
number and the number of bytes.  Results are positive, but may be short. -/
structure UbiVolume where
  opens : Bool
  starts : Bool
  write : Nat → Nat → Int
  write_pos : ∀ k n, 0 < n → 0 < write k n
  write_le : ∀ k n, write k n ≤ n

/-- The inner loop: the offset behind the chunk, {lit}`ret` of the last call and all calls so far. -/
def ubiWrite (volume : UbiVolume) (pos toWrite : Nat) (ret : Int) (calls : List WriteCall) :
    Except (List WriteCall) (Nat × Int × List WriteCall) :=
  if toWrite = 0 then .ok (pos, ret, calls)
  else
    let ret := volume.write calls.length toWrite
    let calls := calls ++ [{ pos, count := toWrite, ret }]
    if ret ≤ 0 then .error calls
    else ubiWrite volume (pos + ret.toNat) (toWrite - ret.toNat) ret calls
termination_by toWrite
decreasing_by omega

/-- The outer loop; {lit}`none` if it goes on without writing. -/
def updateVolume (volume : UbiVolume) (lebSize bytes pos : Nat) (calls : List WriteCall) :
    Option (ZcfgRet × List WriteCall) :=
  if bytes = 0 then some (.success, calls)
  else
    match ubiWrite volume pos (if bytes ≥ lebSize then lebSize else bytes) 0 calls with
    | .error calls => some (.internalError, calls)
    | .ok (pos, ret, calls) =>
        if ret ≤ 0 then none else updateVolume volume lebSize (bytes - ret.toNat) pos calls
termination_by bytes
decreasing_by omega

/-- {lit}`_zyUtilWriteBufToFlash_ubi` with the calls of {lit}`write`. -/
def zyUtilWriteBufToFlashUbi (volume : UbiVolume) (bufSize lebSize : Nat) :
    Option (ZcfgRet × List WriteCall) :=
  if !volume.opens then some (.internalError, [])
  else if !volume.starts then some (.internalError, [])
  else updateVolume volume lebSize bufSize 0 []

/-! ## What is written -/

/-- The bytes that calls have written. -/
def written (memory : Nat → UInt8) (calls : List WriteCall) : List UInt8 :=
  calls.flatMap (fun call => bytesAt memory call.pos call.ret.toNat)

theorem written_append (memory : Nat → UInt8) (calls calls' : List WriteCall) :
    written memory (calls ++ calls') = written memory calls ++ written memory calls' :=
  List.flatMap_append

/-- What the calls for one chunk have in common: they write it in order, and each of them goes up to its
end. -/
structure WritesChunk (pos count : Nat) (calls : List WriteCall) : Prop where
  bytes : ∀ memory, written memory calls = bytesAt memory pos count
  ends : ∀ call ∈ calls, call.pos + call.count = pos + count

/-- The inner loop on a chunk: the last result is the whole chunk if the first call is not short, and less
otherwise. -/
theorem ubiWrite_spec (volume : UbiVolume) :
    ∀ (toWrite pos : Nat) (ret : Int) (calls : List WriteCall), 0 < toWrite →
      ∃ last new, ubiWrite volume pos toWrite ret calls = .ok (pos + toWrite, last, calls ++ new) ∧
        WritesChunk pos toWrite new ∧ new ≠ [] ∧ 0 < last ∧ last ≤ toWrite ∧
        (last = toWrite ↔ volume.write calls.length toWrite = toWrite) ∧
        (last = toWrite → new.length = 1) := by
  intro toWrite
  induction toWrite using Nat.strongRecOn with
  | ind toWrite ih =>
      intro pos ret calls hpos
      have hret := volume.write_pos calls.length toWrite hpos
      have hle := volume.write_le calls.length toWrite
      obtain ⟨n, hn⟩ : ∃ n : Nat, volume.write calls.length toWrite = n :=
        ⟨_, (Int.toNat_of_nonneg (Int.le_of_lt hret)).symm⟩
      have hfirst : ∀ memory, written memory [⟨pos, toWrite, (n : Int)⟩] = bytesAt memory pos n := by
        intro memory
        simp [written]
      rw [ubiWrite, if_neg (by omega)]
      simp only [hn, Int.toNat_natCast]
      rw [if_neg (by omega)]
      by_cases hfull : n = toWrite
      · subst hfull
        rw [ubiWrite, if_pos (by omega)]
        refine ⟨n, [⟨pos, n, n⟩], rfl, ⟨hfirst, ?_⟩, by simp, by omega, Int.le_refl _, by simp, by simp⟩
        intro call hcall
        rw [List.mem_singleton.mp hcall]
      · obtain ⟨last, new, hrun, hchunk, -, hlast, hlastLe, -, -⟩ :=
          ih (toWrite - n) (by omega) (pos + n) n (calls ++ [⟨pos, toWrite, n⟩]) (by omega)
        have hend : pos + n + (toWrite - n) = pos + toWrite := by omega
        rw [hrun, hend, List.append_assoc]
        refine ⟨last, [⟨pos, toWrite, n⟩] ++ new, rfl, ⟨?_, ?_⟩, by simp, hlast, by omega, ?_, ?_⟩
        · intro memory
          rw [written_append, hfirst, hchunk.bytes, ← bytesAt_add]
          congr 1
          omega
        · intro call hcall
          rcases List.mem_append.mp hcall with hcall | hcall
          · rw [List.mem_singleton.mp hcall]
          · rw [hchunk.ends call hcall, hend]
        · omega
        · omega

/-! ## Runs -/

/-- The bytes of the next chunk. -/
def chunkSize (lebSize bytes : Nat) : Nat :=
  if bytes ≥ lebSize then lebSize else bytes

/-- One round of the outer loop. -/
theorem updateVolume_round (volume : UbiVolume) {lebSize bytes : Nat} (hleb : 0 < lebSize)
    (hbytes : 0 < bytes) (pos : Nat) (calls : List WriteCall) :
    ∃ last new, updateVolume volume lebSize bytes pos calls =
        updateVolume volume lebSize (bytes - last) (pos + chunkSize lebSize bytes) (calls ++ new) ∧
      WritesChunk pos (chunkSize lebSize bytes) new ∧ new ≠ [] ∧ 0 < last ∧
      last ≤ chunkSize lebSize bytes ∧
      (last = chunkSize lebSize bytes ↔
        volume.write calls.length (chunkSize lebSize bytes) = chunkSize lebSize bytes) ∧
      (last = chunkSize lebSize bytes → new.length = 1) := by
  have hchunk : 0 < chunkSize lebSize bytes := by
    rw [chunkSize]
    split
    · exact hleb
    · exact hbytes
  obtain ⟨last, new, hrun, hnew, hne, hlast, hle, hiff, hone⟩ :=
    ubiWrite_spec volume (chunkSize lebSize bytes) pos 0 calls hchunk
  obtain ⟨n, rfl⟩ : ∃ n : Nat, last = n := ⟨_, (Int.toNat_of_nonneg (Int.le_of_lt hlast)).symm⟩
  refine ⟨n, new, ?_, hnew, hne, by omega, by omega, by omega, by omega⟩
  rw [updateVolume, if_neg (by omega)]
  rw [chunkSize] at hrun
  simp only [hrun]
  rw [if_neg (by omega), Int.toNat_natCast]
  rfl

theorem chunkSize_le (lebSize bytes : Nat) : chunkSize lebSize bytes ≤ bytes := by
  rw [chunkSize]
  split
  · omega
  · omega

/-- A run returns, and has kept the calls that were there. -/
theorem updateVolume_returns (volume : UbiVolume) {lebSize : Nat} (hleb : 0 < lebSize) :
    ∀ (bytes pos : Nat) (calls : List WriteCall),
      ∃ new, updateVolume volume lebSize bytes pos calls = some (.success, calls ++ new) := by
  intro bytes
  induction bytes using Nat.strongRecOn with
  | ind bytes ih =>
      intro pos calls
      by_cases hbytes : bytes = 0
      · refine ⟨[], ?_⟩
        rw [updateVolume, if_pos hbytes, List.append_nil]
      · have hpos : 0 < bytes := by omega
        obtain ⟨last, new, hrun, -, -, hlast, -, -, -⟩ :=
          updateVolume_round volume hleb hpos pos calls
        obtain ⟨rest, hrest⟩ := ih (bytes - last) (by omega) (pos + chunkSize lebSize bytes) (calls ++ new)
        exact ⟨new ++ rest, by rw [hrun, hrest, List.append_assoc]⟩

/-- A run that has counted too little goes over the end of the buffer. -/
theorem overrun (volume : UbiVolume) {lebSize size : Nat} (hleb : 0 < lebSize) :
    ∀ (bytes pos : Nat) (calls : List WriteCall), 0 < bytes → size < pos + bytes →
      ∀ ret calls', updateVolume volume lebSize bytes pos calls = some (ret, calls') →
        ∃ call ∈ calls', size < call.pos + call.count := by
  intro bytes
  induction bytes using Nat.strongRecOn with
  | ind bytes ih =>
      intro pos calls hbytes hover ret calls' hresult
      obtain ⟨last, new, hrun, hnew, hne, hlast, hle, -, -⟩ :=
        updateVolume_round volume hleb hbytes pos calls
      have hchunk := chunkSize_le lebSize bytes
      rw [hrun] at hresult
      by_cases hrest : bytes - last = 0
      · obtain ⟨call, hcall⟩ := List.exists_mem_of_ne_nil new hne
        refine ⟨call, ?_, ?_⟩
        · rw [updateVolume, if_pos hrest] at hresult
          obtain ⟨-, rfl⟩ := Prod.mk.inj (Option.some.inj hresult)
          exact List.mem_append_right calls hcall
        · rw [hnew.ends call hcall]
          omega
      · exact ih (bytes - last) (by omega) (pos + chunkSize lebSize bytes) (calls ++ new) (by omega)
          (by omega) ret calls' hresult

/-- The condition: from a call on, each call writes a whole chunk. -/
def WholeChunks (volume : UbiVolume) (lebSize bytes first : Nat) : Prop :=
  ∀ k, k * lebSize < bytes →
    volume.write (first + k) (chunkSize lebSize (bytes - k * lebSize)) =
      chunkSize lebSize (bytes - k * lebSize)

/-- The first chunk, and the chunks behind it. -/
theorem wholeChunks_iff {volume : UbiVolume} {lebSize bytes first : Nat} (hbytes : 0 < bytes) :
    WholeChunks volume lebSize bytes first ↔
      volume.write first (chunkSize lebSize bytes) = chunkSize lebSize bytes ∧
        WholeChunks volume lebSize (bytes - chunkSize lebSize bytes) (first + 1) := by
  have hshift : ∀ k, bytes - (k + 1) * lebSize = bytes - lebSize - k * lebSize := by
    intro k
    rw [Nat.add_mul, Nat.one_mul]
    omega
  constructor
  · intro h
    refine ⟨by simpa using h 0 (by omega), ?_⟩
    intro k hk
    have hfull : chunkSize lebSize bytes = lebSize := by
      rw [chunkSize] at hk ⊢
      split at hk
      · rw [if_pos (by assumption)]
      · omega
    rw [hfull] at hk ⊢
    have hnext := h (k + 1) (by rw [Nat.add_mul, Nat.one_mul]; omega)
    rw [hshift, show first + (k + 1) = first + 1 + k by omega] at hnext
    exact hnext
  · rintro ⟨hfirst, hrest⟩ k hk
    cases k with
    | zero => simpa using hfirst
    | succ k =>
        have hfull : chunkSize lebSize bytes = lebSize := by
          rw [chunkSize, if_pos]
          rw [Nat.add_mul, Nat.one_mul] at hk
          omega
        rw [hfull] at hrest
        rw [hshift, show first + (k + 1) = first + 1 + k by omega]
        apply hrest
        rw [Nat.add_mul, Nat.one_mul] at hk
        omega

/-- With whole chunks the rest of the buffer is written in order. -/
theorem updateVolume_whole (volume : UbiVolume) {lebSize : Nat} (hleb : 0 < lebSize) :
    ∀ (bytes pos : Nat) (calls : List WriteCall), WholeChunks volume lebSize bytes calls.length →
      ∃ new, updateVolume volume lebSize bytes pos calls = some (.success, calls ++ new) ∧
        (∀ memory, written memory new = bytesAt memory pos bytes) ∧
        ∀ call ∈ new, call.pos + call.count ≤ pos + bytes := by
  intro bytes
  induction bytes using Nat.strongRecOn with
  | ind bytes ih =>
      intro pos calls hwhole
      by_cases hbytes : bytes = 0
      · subst hbytes
        refine ⟨[], ?_, fun _ => rfl, by simp⟩
        rw [updateVolume, if_pos rfl, List.append_nil]
      · have hpos : 0 < bytes := by omega
        obtain ⟨hfirst, hrest⟩ := (wholeChunks_iff hpos).mp hwhole
        obtain ⟨last, new, hrun, hnew, -, hlast, -, hiff, hone⟩ :=
          updateVolume_round volume hleb hpos pos calls
        have hchunk := chunkSize_le lebSize bytes
        have hfull := hiff.mpr hfirst
        rw [← hone hfull, ← List.length_append] at hrest
        rw [← hfull] at hrest hnew hrun
        obtain ⟨rest, hrest, hbytes', hends⟩ := ih (bytes - last) (by omega) (pos + last) (calls ++ new) hrest
        refine ⟨new ++ rest, by rw [hrun, hrest, List.append_assoc], ?_, ?_⟩
        · intro memory
          rw [written_append, hnew.bytes, hbytes', ← bytesAt_add]
          congr 1
          omega
        · intro call hcall
          rcases List.mem_append.mp hcall with hcall | hcall
          · rw [hnew.ends call hcall]
            omega
          · have hend := hends call hcall
            omega

/-- A short call makes the run go over the end of the buffer. -/
theorem updateVolume_short (volume : UbiVolume) {lebSize size : Nat} (hleb : 0 < lebSize) :
    ∀ (bytes pos : Nat) (calls : List WriteCall), pos + bytes = size →
      ¬ WholeChunks volume lebSize bytes calls.length →
      ∀ ret calls', updateVolume volume lebSize bytes pos calls = some (ret, calls') →
        ∃ call ∈ calls', size < call.pos + call.count := by
  intro bytes
  induction bytes using Nat.strongRecOn with
  | ind bytes ih =>
      intro pos calls hsize hshort ret calls' hresult
      by_cases hbytes : bytes = 0
      · refine absurd ?_ hshort
        intro k hk
        omega
      · have hpos : 0 < bytes := by omega
        obtain ⟨last, new, hrun, hnew, -, hlast, hle, hiff, hone⟩ :=
          updateVolume_round volume hleb hpos pos calls
        have hchunk := chunkSize_le lebSize bytes
        rw [hrun] at hresult
        by_cases hfull : last = chunkSize lebSize bytes
        · have hrest : ¬ WholeChunks volume lebSize (bytes - last) (calls ++ new).length := by
            intro hrest
            rw [List.length_append, hone hfull, hfull] at hrest
            exact hshort ((wholeChunks_iff hpos).mpr ⟨hiff.mp hfull, hrest⟩)
          exact ih (bytes - last) (by omega) (pos + chunkSize lebSize bytes) (calls ++ new) (by omega)
            hrest ret calls' hresult
        · exact overrun volume hleb (bytes - last) (pos + chunkSize lebSize bytes) (calls ++ new)
            (by omega) (by omega) ret calls' hresult

/-! ## The buffer -/

/-- If the function returns success then the bytes that have been written are those of the buffer, and no
call goes beyond its end. -/
structure WritesBuffer (memory : Nat → UInt8) (bufSize : Nat) (ret : ZcfgRet)
    (calls : List WriteCall) : Prop where
  bytes : ret = .success → written memory calls = bytesAt memory 0 bufSize
  ends : ∀ call ∈ calls, call.pos + call.count ≤ bufSize

/-- The condition on a volume that can be updated: no call for a chunk is short. -/
def UbiFits (volume : UbiVolume) (bufSize lebSize : Nat) : Prop :=
  volume.opens = true → volume.starts = true → WholeChunks volume lebSize bufSize 0

/-- The function returns, and writes the buffer exactly if no call for a chunk is short. -/
theorem ubiWrite_exact_iff (volume : UbiVolume) (memory : Nat → UInt8) (bufSize lebSize : Nat)
    (hleb : 0 < lebSize) :
    (∃ ret calls, zyUtilWriteBufToFlashUbi volume bufSize lebSize = some (ret, calls) ∧
      WritesBuffer memory bufSize ret calls) ↔ UbiFits volume bufSize lebSize := by
  rw [zyUtilWriteBufToFlashUbi, UbiFits]
  by_cases hopens : volume.opens = true
  swap
  · refine iff_of_true ⟨.internalError, [], by simp [hopens], by simp, by simp⟩ ?_
    exact fun h => absurd h hopens
  by_cases hstarts : volume.starts = true
  swap
  · refine iff_of_true ⟨.internalError, [], by simp [hopens, hstarts], by simp, by simp⟩ ?_
    exact fun _ h => absurd h hstarts
  simp only [hopens, hstarts, Bool.not_true, Bool.false_eq_true, if_false, true_implies]
  constructor
  · rintro ⟨ret, calls, hresult, hwrites⟩
    by_contra hshort
    obtain ⟨call, hcall, hover⟩ :=
      updateVolume_short volume hleb bufSize 0 [] (Nat.zero_add bufSize) hshort ret calls hresult
    have hend := hwrites.ends call hcall
    omega
  · intro hwhole
    obtain ⟨new, hresult, hbytes, hends⟩ := updateVolume_whole volume hleb bufSize 0 [] hwhole
    refine ⟨.success, new, hresult, fun _ => hbytes memory, ?_⟩
    intro call hcall
    have hend := hends call hcall
    omega

/-- A volume that takes all bytes of each call. -/
def wholeVolume : UbiVolume where
  opens := true
  starts := true
  write := fun _ n => n
  write_pos := by simp
  write_le := by simp

/-- Five bytes in chunks of two. -/
theorem ubiWrite_exact_five :
    ∃ ret calls, zyUtilWriteBufToFlashUbi wholeVolume 5 2 = some (ret, calls) ∧
      WritesBuffer (fun _ => 0xff) 5 ret calls :=
  (ubiWrite_exact_iff wholeVolume (fun _ => 0xff) 5 2 (by decide)).mpr (fun _ _ _ _ => rfl)

/-- A volume that takes one byte less in the first call, if there is one left. -/
def shortVolume : UbiVolume where
  opens := true
  starts := true
  write := fun k n => if k = 0 ∧ 1 < n then n - 1 else n
  write_pos := by
    intro k n hn
    split
    · omega
    · omega
  write_le := by
    intro k n
    split
    · omega
    · omega

/-- With a short first call, a buffer of three bytes is read over its end. -/
theorem ubiWrite_exact_fails :
    ¬ ∀ (volume : UbiVolume) (memory : Nat → UInt8) (bufSize lebSize : Nat), 0 < lebSize →
      ∀ ret calls, zyUtilWriteBufToFlashUbi volume bufSize lebSize = some (ret, calls) →
        WritesBuffer memory bufSize ret calls := by
  intro h
  obtain ⟨new, hresult⟩ := updateVolume_returns shortVolume (show 0 < 3 by decide) 3 0 []
  have hwrites := h shortVolume (fun _ => 0) 3 3 (by decide) .success new hresult
  have hshort : ¬ WholeChunks shortVolume 3 3 0 := by
    intro hwhole
    exact absurd (hwhole 0 (by decide)) (by decide)
  obtain ⟨call, hcall, hover⟩ :=
    updateVolume_short shortVolume (by decide) 3 0 [] rfl hshort .success new hresult
  have hend := hwrites.ends call hcall
  omega

end ZyUtil
end ZyxelRouter
