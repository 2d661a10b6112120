import KernelDrivers.Awe.Flat
import KernelDrivers.Awe.Protection

/-!
# A request of AWEAlloc that runs alone

What a request does to the bytes of the file, from its first step to its last.  The
specification is the array of bytes: a write leaves its bytes over the old ones, a read has the
old bytes in its buffer.

## Main definitions

* `exec` — a request run with the answers of the system.
* `lastWritten` — the last byte written at an offset.
* `InRange` — the sums of a request stay in their types.
* `Running` — the invariant of a request, with what is known at each place.

## Main results

* `running_act` — a step keeps the invariant.
* `completed_exec` — a request ends after as many steps as its rank.
-/

namespace KernelDrivers.Awe

open Request

/-- A request with the answers of the system to its steps. -/
def exec (c : Context) (r : Request) (xs : List Answer) : Context × Request :=
  xs.foldl (fun p x => p.2.act p.1 x) (c, r)

/-- `f` with the bytes that a write has copied. -/
def written (r : Request) (f : ℤ → UInt8) (a : ℤ) : UInt8 :=
  if r.major = .write ∧ r.byteOffset ≤ a ∧ a < r.byteOffset + r.lengthDone then
    r.systemBuffer (a - r.byteOffset).toNat
  else f a

/-- The last byte written at each offset by the requests served so far, newest first. -/
def lastWritten (history : List Request) : ℤ → UInt8 :=
  history.foldr written fun _ => 0

/-- No sum that the request forms leaves its type.  A size is at most the last page boundary of
a `LONGLONG`; the offset in the first page and the bytes to copy sum up to a `ULONG`. -/
def InRange (c : Context) (r : Request) : Prop :=
  match r.major with
  | .setInformation => 0 ≤ r.newSize ∧ r.newSize ≤ sizeLimit
  | .write => r.byteOffset + r.length ≤ sizeLimit ∧
      r.byteOffset % allocPageSize + r.length < 2 ^ 32
  | .read => r.byteOffset + r.length < 2 ^ 63 ∧
      r.byteOffset % allocPageSize + min (r.length : ℤ) (c.virtualSize - r.byteOffset) < 2 ^ 32

/-- The system refuses nothing to a read. -/
def Grants (x : Answer) : Prop := x.buffer = true ∧ x.map.mdl = true ∧ x.map.address = true

/-! ### One request -/

variable {c₀ c c' : Context} {r₀ r r' : Request} {G : Prop} {x : Answer}

/-- What a status says of a request that ends with it after `n` bytes.  `G` says that the system
refused nothing. -/
structure Ends (c₀ : Context) (r₀ : Request) (G : Prop) (status : Status) (n : ℕ) : Prop where
  noError : status ≠ .driverInternalError
  served : r₀.major = .read → r₀.byteOffset ≤ c₀.virtualSize → status = .success →
    (n : ℤ) = min (r₀.length : ℤ) (c₀.virtualSize - r₀.byteOffset)
  granted : r₀.major = .read → 0 ≤ r₀.byteOffset → r₀.byteOffset ≤ c₀.virtualSize → G →
    status = .success

/-- A request that has passed the checks and has not copied yet. -/
structure Accepted (r₀ r : Request) : Prop where
  length : r.length = r₀.length
  newSize : r.newSize = r₀.newSize
  lengthDone : r.lengthDone = 0
  nonneg : r.major ≠ .setInformation → 0 ≤ r.byteOffset
  endOffset : r.major ≠ .setInformation → r.endOffset = r.byteOffset + r.length

theorem Accepted.at (h : Accepted r₀ r) (pc : Pc) (holdsRead : Bool) :
    Accepted r₀ { r with pc := pc, holdsRead := holdsRead } :=
  ⟨h.length, h.newSize, h.lengthDone, h.nonneg, h.endOffset⟩

/-- What is known of a request at each place. -/
def Place (c₀ : Context) (r₀ : Request) (G : Prop) (c : Context) (r : Request) : Prop :=
  match r.pc with
  | .entry => c = c₀ ∧ r = r₀
  | .acquire => c = c₀ ∧ Accepted r₀ r
  | .eofCheck => Accepted r₀ r ∧ r.major ≠ .setInformation
  | .sizeCheck => Accepted r₀ r ∧ r.major ≠ .setInformation ∧
      (r.major = .read → r.byteOffset ≤ c.virtualSize)
  | .upgrade => Accepted r₀ r ∧ r.major = .write
  | .grow => r.lengthDone = 0 ∧ 0 ≤ r.newSize ∧ r.newSize ≤ sizeLimit ∧ r.major ≠ .read ∧
      (r.major = .write → r.newSize = r.byteOffset + r.length ∧ 0 ≤ r.byteOffset ∧
        r.length = r₀.length)
  | .downgrade => r.lengthDone = 0 ∧ r.major = .write ∧ r.length = r₀.length ∧
      0 ≤ r.byteOffset ∧ c.virtualSize = r.byteOffset + r.length
  | .clip => r.lengthDone = 0 ∧ r.length = r₀.length ∧ 0 ≤ r.byteOffset ∧
      r.endOffset = r.byteOffset + r.length ∧ (r.major = .read → r.byteOffset ≤ c.virtualSize) ∧
      (r.major ≠ .read → r.major = .write ∧ c.virtualSize = r.byteOffset + r.length)
  | .copy => r.lengthDone ≤ r.length ∧ 0 ≤ r.byteOffset ∧ r.byteOffset + r.length ≤ c.virtualSize ∧
      r.byteOffset % allocPageSize + r.length < 2 ^ 32 ∧ r.major ≠ .setInformation ∧
      (r.major = .read →
        (r.length : ℤ) = min (r₀.length : ℤ) (c₀.virtualSize - r.byteOffset))
  | .release _ _ status => Ends c₀ r₀ G status r.lengthDone
  | .completed status => Ends c₀ r₀ G status r.information ∧
      (status = .success → r.information = r.lengthDone)
  | .fault => False

/-- The invariant of a request that runs alone: the context stays sound and shows the bytes that
the request wrote over the old ones, and a read has the old bytes in its buffer. -/
structure Running (c₀ : Context) (r₀ : Request) (G : Prop) (c : Context) (r : Request) : Prop where
  sound : Sound c
  page : r.page.Valid c.blocks
  major : r.major = r₀.major
  offset : r.byteOffset = r₀.byteOffset
  bytes : image c = written r (image c₀)
  answer : r.major = .read → ∀ i < r.lengthDone, r.systemBuffer i = image c₀ (r.byteOffset + i)
  virtual : r.major = .read → c.virtualSize = c₀.virtualSize
  place : Place c₀ r₀ G c r

/-- A step that copies nothing. -/
theorem Running.move (h : Running c₀ r₀ G c r) (hs : Sound c') (hi : image c' = image c)
    (hp : r'.page.Valid c'.blocks) (hmajor : r'.major = r.major)
    (hoffset : r'.byteOffset = r.byteOffset) (hdone : r'.lengthDone = r.lengthDone)
    (hbuffer : r'.systemBuffer = r.systemBuffer)
    (hv : r.major = .read → c'.virtualSize = c.virtualSize) (hplace : Place c₀ r₀ G c' r') :
    Running c₀ r₀ G c' r' where
  sound := hs
  page := hp
  major := hmajor.trans h.major
  offset := hoffset.trans h.offset
  bytes := by
    rw [hi, h.bytes]
    funext a
    simp only [written, hmajor, hoffset, hdone, hbuffer]
  answer := by
    rw [hmajor, hoffset, hdone, hbuffer]
    exact h.answer
  virtual := by
    rw [hmajor]
    exact fun hr => (hv hr).trans (h.virtual hr)
  place := hplace

/-- An end that gives nothing back because of the request, not of the system. -/
theorem Ends.of_not_read {status : Status} {n : ℕ} (hstatus : status ≠ .driverInternalError)
    (hread : r₀.major ≠ .read) : Ends c₀ r₀ G status n :=
  ⟨hstatus, fun h => absurd h hread, fun h => absurd h hread⟩

/-- The end of a request that the system refused something. -/
theorem Ends.of_refused {status : Status} {n : ℕ} (hstatus : status ≠ .driverInternalError)
    (hfail : status ≠ .success) (hG : ¬ G) : Ends c₀ r₀ G status n :=
  ⟨hstatus, fun _ _ h => absurd h hfail, fun _ _ _ h => absurd h hG⟩

section Steps

variable (h : Running c₀ r₀ G c r)
include h

theorem running_enter (hfresh : r₀.Fresh) (hrange : InRange c₀ r₀) (hG : G → Grants x)
    (hpc : r.pc = .entry) : Running c₀ r₀ G c (r.enter x) := by
  have hplace := h.place
  simp only [Place, hpc] at hplace
  obtain ⟨rfl, rfl⟩ := hplace
  -- the sum of the range is formed in 64 bits
  have hend : 0 ≤ r.byteOffset → ¬ r.endOffset < 0 → r.endOffset = r.byteOffset + r.length := by
    intro h0 hneg
    have := hfresh.length
    have := hfresh.byteOffset
    rw [endOffset] at hneg ⊢
    rw [Int.bmod_def] at hneg ⊢
    split at hneg <;> omega
  have haccept : (r.major ≠ .setInformation → 0 ≤ r.byteOffset ∧ ¬ r.endOffset < 0) →
      Accepted r { r with pc := .acquire } := fun hok =>
    ⟨rfl, rfl, hfresh.lengthDone, fun hm => (hok hm).1, fun hm => hend (hok hm).1 (hok hm).2⟩
  have hmove : ∀ r', r'.page = r.page → r'.major = r.major → r'.byteOffset = r.byteOffset →
      r'.lengthDone = r.lengthDone → r'.systemBuffer = r.systemBuffer → Place c r G c r' →
      Running c r G c r' := fun r' hpage hmajor hoffset hdone hbuffer hplace =>
    h.move h.sound rfl (hpage ▸ h.page) hmajor hoffset hdone hbuffer (fun _ => rfl) hplace
  rw [enter]
  split
  · next hmajor =>
      split
      · exact hmove _ rfl rfl rfl rfl rfl
          ⟨.of_not_read (by simp) (by simp [hmajor]), by simp⟩
      · exact hmove _ rfl rfl rfl rfl rfl ⟨rfl, haccept fun hm => absurd hmajor hm⟩
  · split
    · next hneg =>
        refine hmove _ rfl rfl rfl rfl rfl ⟨⟨by simp, by simp, fun hread h0 hv => ?_⟩, by simp⟩
        -- a read below the virtual size is not rejected
        have hsum : r.endOffset = r.byteOffset + r.length := by
          simp only [InRange, hread] at hrange
          rw [endOffset]
          apply Int.bmod_eq_of_le <;> omega
        omega
    · next hneg =>
        have haccept := haccept fun _ => by omega
        split
        · next hzero =>
            refine hmove _ rfl rfl rfl rfl rfl ⟨⟨by simp, fun _ hv _ => ?_, by simp⟩, fun _ => ?_⟩
            · change ((0 : ℕ) : ℤ) = _
              omega
            · exact hfresh.lengthDone.symm
        · split
          · next hrefused =>
              exact hmove _ rfl rfl rfl rfl rfl
                ⟨.of_refused (by simp) (by simp) fun hg => by simp [(hG hg).1] at hrefused, by simp⟩
          · exact hmove _ rfl rfl rfl rfl rfl ⟨rfl, haccept⟩

theorem running_acquire (hG : G → c₀.activeReaders < 2 ^ 31 - 1) (hr0 : 0 ≤ c₀.activeReaders)
    (hw0 : c₀.activeWriters = 0) (hrange : InRange c₀ r₀) (hpc : r.pc = .acquire) :
    Running c₀ r₀ G (r.acquire c).1 (r.acquire c).2 := by
  have hplace := h.place
  simp only [Place, hpc] at hplace
  obtain ⟨rfl, haccept⟩ := hplace
  have hsame : ∀ (n m : ℤ), Sound { c with activeReaders := n, activeWriters := m } := fun n m =>
    ⟨h.sound.tiles, h.sound.virtual_nonneg, h.sound.virtual_le, h.sound.total_le, h.sound.page⟩
  rw [Request.acquire]
  split
  · next hmajor =>
      have hnot : r₀.major ≠ .read := by rw [← h.major, hmajor]; simp
      obtain heq | ⟨-, heq⟩ := tryAcquireProtection_write hw0.ge false
      · rw [heq]
        exact h.move h.sound rfl h.page rfl rfl rfl rfl (fun _ => rfl)
          ⟨.of_not_read (by simp) hnot, by simp⟩
      · rw [heq]
        refine h.move (hsame _ _) rfl h.page rfl rfl rfl rfl (fun _ => rfl) ?_
        have hsize : 0 ≤ r.newSize ∧ r.newSize ≤ sizeLimit := by
          rw [haccept.newSize]
          simpa only [InRange, ← h.major, hmajor] using hrange
        exact ⟨haccept.lengthDone, hsize.1, hsize.2, by simp [hmajor], by simp [hmajor]⟩
  · next hmajor =>
      obtain heq | ⟨-, heq⟩ := tryAcquireProtection_read hr0
      · rw [heq]
        refine h.move h.sound rfl h.page rfl rfl rfl rfl (fun _ => rfl)
          ⟨.of_refused (by simp) (by simp) fun hg => ?_, by simp⟩
        have hfree : ¬ (c.activeWriters ≥ 1 ∨ c.activeReaders ≥ 2 ^ 31 - 1) := by
          have := hG hg
          omega
        simp only [tryAcquireProtection, hfree, Bool.false_eq_true, if_false] at heq
        split at heq <;> simp at heq
      · rw [heq]
        exact h.move (hsame _ _) rfl h.page rfl rfl rfl rfl (fun _ => rfl)
          ⟨haccept.at .eofCheck true, hmajor⟩

theorem running_eofCheck (hpc : r.pc = .eofCheck) : Running c₀ r₀ G c (r.eofCheck c) := by
  have hplace := h.place
  simp only [Place, hpc] at hplace
  obtain ⟨haccept, hmajor⟩ := hplace
  rw [Request.eofCheck]
  split
  · next hpast =>
      have hv := h.virtual hpast.1
      have ho := h.offset
      exact h.move h.sound rfl h.page rfl rfl rfl rfl (fun _ => rfl)
        ⟨⟨by simp, fun _ _ h' => by simp at h', fun _ _ _ _ => by omega⟩, by simp⟩
  · next hin =>
      refine h.move h.sound rfl h.page rfl rfl rfl rfl (fun _ => rfl)
        ⟨haccept.at .sizeCheck r.holdsRead, hmajor, ?_⟩
      intro hread
      by_contra hlt
      exact hin ⟨hread, by simpa using hlt⟩

theorem running_sizeCheck (hrange : InRange c₀ r₀) (hpc : r.pc = .sizeCheck) :
    Running c₀ r₀ G c (r.sizeCheck c) := by
  have hplace := h.place
  simp only [Place, hpc] at hplace
  obtain ⟨haccept, hmajor, hread⟩ := hplace
  rw [Request.sizeCheck]
  split
  · refine h.move h.sound rfl h.page rfl rfl rfl rfl (fun _ => rfl) ?_
    by_cases hw : r.major = .write
    · rw [if_pos hw]
      exact ⟨haccept.at .upgrade r.holdsRead, hw⟩
    · rw [if_neg hw]
      exact ⟨haccept.lengthDone, haccept.length, haccept.nonneg hmajor, haccept.endOffset hmajor,
        hread, fun hr => by cases hm : r.major <;> simp_all⟩
  · next hfits =>
      rw [haccept.endOffset hmajor] at hfits
      have hlen := haccept.length
      have ho := h.offset
      refine h.move h.sound rfl h.page rfl rfl rfl rfl (fun _ => rfl)
        ⟨by rw [haccept.lengthDone]; exact Nat.zero_le _, haccept.nonneg hmajor, by simpa using hfits,
          ?_, hmajor, fun hr => ?_⟩
      · cases hm : r₀.major with
        | read =>
            have hv := h.virtual (h.major.trans hm)
            simp only [InRange, hm, ← ho] at hrange
            dsimp only
            omega
        | write =>
            simp only [InRange, hm, ← ho] at hrange
            dsimp only
            omega
        | setInformation => exact absurd (h.major.trans hm) hmajor
      · have hv := h.virtual hr
        dsimp only
        omega

theorem running_upgrade (hw0 : 0 ≤ c.activeWriters) (hrange : InRange c₀ r₀)
    (hpc : r.pc = .upgrade) : Running c₀ r₀ G (r.upgrade c).1 (r.upgrade c).2 := by
  have hplace := h.place
  simp only [Place, hpc] at hplace
  obtain ⟨haccept, hmajor⟩ := hplace
  have hnot : r₀.major ≠ .read := by rw [← h.major, hmajor]; simp
  have hsum := haccept.endOffset (by simp [hmajor])
  have hnonneg := haccept.nonneg (by simp [hmajor])
  rw [Request.upgrade]
  obtain heq | ⟨-, heq⟩ := tryAcquireProtection_write hw0 true
  · rw [heq]
    exact h.move h.sound rfl h.page rfl rfl rfl rfl (fun _ => rfl) (.of_not_read (by simp) hnot)
  · rw [heq]
    refine h.move ?_ rfl h.page rfl rfl rfl rfl (fun _ => rfl) ?_
    · exact ⟨h.sound.tiles, h.sound.virtual_nonneg, h.sound.virtual_le, h.sound.total_le,
        h.sound.page⟩
    · simp only [InRange, ← h.major, hmajor, ← h.offset, ← haccept.length] at hrange
      refine ⟨haccept.lengthDone, ?_, ?_, by simp [hmajor], fun _ => ⟨hsum, hnonneg, haccept.length⟩⟩
      · change 0 ≤ r.endOffset
        omega
      · change r.endOffset ≤ sizeLimit
        omega

theorem running_grow (x : Answer) (hpc : r.pc = .grow) :
    Running c₀ r₀ G (r.grow c x).1 (r.grow c x).2 := by
  have hplace := h.place
  simp only [Place, hpc] at hplace
  obtain ⟨hdone, h0, hlim, hmajor, hwrite⟩ := hplace
  have hnot : r₀.major ≠ .read := h.major ▸ hmajor
  have hsized := setSizePass_spec h.sound h0 hlim x.grant
  have hpage : r.page.Valid (setSizePass c r.newSize x.grant).1.blocks := by
    obtain heq | ⟨b, heq⟩ := hsized.blocks
    · exact heq ▸ h.page
    · exact heq ▸ h.page.cons b
  rw [Request.grow]
  split
  · next c' heq =>
      rw [heq] at hsized hpage
      refine h.move hsized.sound hsized.image hpage rfl rfl rfl rfl (fun hr => absurd hr hmajor) ?_
      simp only [Place, hpc]
      exact ⟨hdone, h0, hlim, hmajor, hwrite⟩
  · next c' status heq =>
      rw [heq] at hsized hpage
      have hends := hsized.ends status rfl
      have hstatus : status ≠ .driverInternalError := by
        rcases hends with ⟨rfl, -⟩ | ⟨rfl, -⟩ <;> simp
      split
      · exact h.move hsized.sound hsized.image hpage rfl rfl rfl rfl (fun hr => absurd hr hmajor)
          (.of_not_read hstatus hnot)
      · next hset =>
          have hw : r.major = .write := by cases hm : r.major <;> simp_all
          obtain ⟨hsum, hnonneg, hlen⟩ := hwrite hw
          split
          · next hok =>
              have hv : c'.virtualSize = r.newSize := by
                rcases hends with ⟨-, hv⟩ | ⟨hbad, -⟩
                · exact hv
                · simp [hok] at hbad
              exact h.move hsized.sound hsized.image hpage rfl rfl rfl rfl
                (fun hr => absurd hr hmajor) ⟨hdone, hw, hlen, hnonneg, hv.trans hsum⟩
          · exact h.move hsized.sound hsized.image hpage rfl rfl rfl rfl
              (fun hr => absurd hr hmajor) (.of_not_read hstatus hnot)

theorem running_downgrade (hrange : InRange c₀ r₀) (hpc : r.pc = .downgrade) :
    Running c₀ r₀ G (releaseProtection c false true)
      { r with pc := .clip, holdsWrite := false } := by
  have hplace := h.place
  simp only [Place, hpc] at hplace
  obtain ⟨hdone, hmajor, hlen, hnonneg, hv⟩ := hplace
  have hs := h.sound
  have hsum : r.endOffset = r.byteOffset + r.length := by
    simp only [InRange, ← h.major, hmajor, ← h.offset, ← hlen, sizeLimit] at hrange
    rw [endOffset]
    apply Int.bmod_eq_of_le <;> omega
  exact h.move ⟨hs.tiles, hs.virtual_nonneg, hs.virtual_le, hs.total_le, hs.page⟩ rfl h.page
    rfl rfl rfl rfl (fun _ => rfl)
    ⟨hdone, hlen, hnonneg, hsum, by simp [hmajor], fun _ => ⟨hmajor, hv⟩⟩

theorem running_clip (hfresh : r₀.Fresh) (hrange : InRange c₀ r₀) (hpc : r.pc = .clip) :
    Running c₀ r₀ G c (r.clip c) := by
  have hplace := h.place
  simp only [Place, hpc] at hplace
  obtain ⟨hdone, hlen, hnonneg, hsum, hread, hwrite⟩ := hplace
  have ho := h.offset
  rw [Request.clip, hsum]
  split
  · next hmore =>
      have hr : r.major = .read := by
        by_contra hr
        have := (hwrite hr).2
        omega
      have hv := h.virtual hr
      have hle := hread hr
      simp only [InRange, ← h.major, hr, ← ho, ← hlen] at hrange
      have hlt : r.length < 2 ^ 32 := hlen ▸ hfresh.length
      have hclip : (c.virtualSize - r.byteOffset) % 2 ^ 32 = c.virtualSize - r.byteOffset := by
        apply Int.emod_eq_of_lt <;> omega
      refine h.move h.sound rfl h.page rfl rfl rfl rfl (fun _ => rfl)
        ⟨by rw [hdone]; exact Nat.zero_le _, hnonneg, ?_, ?_, by simp [hr], fun _ => ?_⟩ <;>
      · dsimp only
        rw [hclip]
        omega
  · next hfits =>
      refine h.move h.sound rfl h.page rfl rfl rfl rfl (fun _ => rfl)
        ⟨by rw [hdone]; exact Nat.zero_le _, hnonneg, by simpa using hfits, ?_, ?_, fun hr => ?_⟩
      · cases hm : r.major with
        | read =>
            have hv := h.virtual hm
            simp only [InRange, ← h.major, hm, ← ho, ← hlen] at hrange
            dsimp only
            omega
        | write =>
            simp only [InRange, ← h.major, hm, ← ho, ← hlen] at hrange
            exact hrange.2
        | setInformation => exact absurd (hwrite (by simp [hm])).1 (by simp [hm])
      · intro hm
        replace hm : r.major = .setInformation := hm
        exact absurd (hwrite (by simp [hm])).1 (by simp [hm])
      · have hv := h.virtual hr
        dsimp only
        omega

end Steps

/-! ### The copy loop -/

/-- Where the sums stay in their types, a pass copies something and stays in its page. -/
theorem bytesThisIter_spec (h32 : r.byteOffset % allocPageSize + r.length < 2 ^ 32)
    (hlt : r.lengthDone < r.length) :
    0 < r.bytesThisIter ∧ r.lengthDone + r.bytesThisIter ≤ r.length ∧
      getPageOffset (r.byteOffset + r.lengthDone) + r.bytesThisIter ≤ allocPageSize := by
  have hpage := getPageOffset_lt (r.byteOffset + r.lengthDone)
  have hoff : getPageOffset (r.byteOffset + r.lengthDone) + (r.length - r.lengthDone) < 2 ^ 32 := by
    simp only [getPageOffset, allocPageSize] at h32 ⊢
    omega
  simp only [bytesThisIter]
  rw [Nat.mod_eq_of_lt hoff]
  split <;> omega

/-- A mapped page shows the bytes of its offsets. -/
theorem image_of_maps (h : Tiles c.blocks c.totalSize) {base : ℤ} {m : Mapping}
    (hm : Maps c.blocks base m) {j : ℕ} (hj : j < allocPageSize) :
    image c (base + j) = c.memory m.mdl (m.start + j) := by
  obtain ⟨b, hb, hle, hend, rfl⟩ := hm
  rw [image_eq h hb (by omega) (by omega)]
  congr 1
  change (base + j - b.offset).toNat = (base - b.offset).toNat + j
  omega

theorem maps_size {bs : List Block} {base : ℤ} {m : Mapping} (hm : Maps bs base m) :
    m.size = allocPageSize := by
  obtain ⟨b, -, -, -, rfl⟩ := hm
  rfl

/-- The copy of a pass. -/
theorem running_transfer (h : Running c₀ r₀ G c r) (hpc : r.pc = .copy)
    (hlt : r.lengthDone < r.length) {m : Mapping}
    (hm : Maps c.blocks (getPageBase (r.byteOffset + r.lengthDone)) m) :
    Running c₀ r₀ G (r.transfer c m).1 (r.transfer c m).2 := by
  have hplace := h.place
  simp only [Place, hpc] at hplace
  obtain ⟨-, hnonneg, hend, h32, hmajor, hread⟩ := hplace
  obtain ⟨-, hdone, hpage⟩ := bytesThisIter_spec h32 hlt
  have hsplit := getPageBase_add_getPageOffset (r.byteOffset + r.lengthDone)
  have hbase := getPageBase_le (r.byteOffset + r.lengthDone)
  have hs := h.sound
  unfold Request.transfer
  dsimp only
  rw [maps_size hm, if_neg (by omega)]
  generalize getPageOffset (r.byteOffset + r.lengthDone) = po at *
  generalize getPageBase (r.byteOffset + r.lengthDone) = base at *
  generalize r.bytesThisIter = n at *
  have hplace' : ∀ {c' : Context} {f : ℕ → UInt8}, c'.virtualSize = c.virtualSize →
      Place c₀ r₀ G c' { r with lengthDone := r.lengthDone + n, systemBuffer := f } := by
    intro c' f hv
    simp only [Place, hpc]
    rw [hv]
    exact ⟨hdone, hnonneg, hend, h32, hmajor, hread⟩
  split
  · next hw =>
      have hpo : po = (r.byteOffset + r.lengthDone - base).toNat := by omega
      have himage := image_store hs.tiles (fun i => r.systemBuffer (r.lengthDone + i)) (n := n) hm
        hbase (by omega)
      rw [← hpo] at himage
      exact {
        sound := ⟨hs.tiles, hs.virtual_nonneg, hs.virtual_le, hs.total_le, hs.page⟩
        page := h.page
        major := h.major
        offset := h.offset
        bytes := by
          funext a
          rw [himage, h.bytes]
          simp only [written, hw, true_and]
          push_cast
          split_ifs <;> first | rfl | (congr 1; omega)
        answer := fun hr => absurd hr (by simp [hw])
        virtual := fun hr => absurd hr (by simp [hw])
        place := hplace' rfl }
  · next hnot =>
      have hr : r.major = .read := by cases hm : r.major <;> simp_all
      have hsame : image c = image c₀ := by
        rw [h.bytes]
        funext a
        simp [written, hr]
      exact {
        sound := hs
        page := h.page
        major := h.major
        offset := h.offset
        bytes := by
          rw [hsame]
          funext a
          simp [written, hr]
        answer := by
          intro _ i hi
          dsimp only at hi ⊢
          by_cases hold : r.lengthDone ≤ i
          · rw [if_pos ⟨hold, hi⟩, ← hsame, Nat.add_assoc, ← image_of_maps hs.tiles hm (by omega)]
            congr 1
            push_cast
            omega
          · rw [if_neg (by omega)]
            exact h.answer hr i (by omega)
        virtual := fun _ => h.virtual hr
        place := hplace' rfl }

theorem running_copyPass (h : Running c₀ r₀ G c r) (hG : G → Grants x) (hpc : r.pc = .copy) :
    Running c₀ r₀ G (r.copyPass c x).1 (r.copyPass c x).2 := by
  have hplace := h.place
  simp only [Place, hpc] at hplace
  obtain ⟨hle, hnonneg, hend, h32, hmajor, hread⟩ := hplace
  have hs := h.sound
  have hvt := hs.virtual_le
  have ho := h.offset
  rw [Request.copyPass]
  split
  · next hlast =>
      have hmapped := mapPage_spec hs h.page (o := -1) (by have := hs.tiles.nonneg; omega) x.map
      obtain ⟨q, hq, hctx⟩ := hmapped.context
      have hpage := hmapped.page
      dsimp only
      rw [hctx]
      refine h.move ⟨hs.tiles, hs.virtual_nonneg, hs.virtual_le, hs.total_le, hq⟩ rfl hpage
        rfl rfl rfl rfl (fun _ => rfl) ⟨by simp, fun hr _ _ => ?_, fun _ _ _ _ => rfl⟩
      have := hread (h.major.trans hr)
      dsimp only
      omega
  · next hmore =>
      have hmapped := mapPage_spec hs h.page (o := r.byteOffset + r.lengthDone) (by omega) x.map
      split
      · next c' page heq =>
          rw [heq] at hmapped
          obtain ⟨q, hq, rfl⟩ := hmapped.context
          obtain ⟨m, hm, hmaps⟩ := hmapped.maps (by omega) rfl
          rw [hm]
          have hmoved : Running c₀ r₀ G { c with latestPageContext := q } { r with page := page } :=
            h.move ⟨hs.tiles, hs.virtual_nonneg, hs.virtual_le, hs.total_le, hq⟩ rfl hmapped.page
              rfl rfl rfl rfl (fun _ => rfl) (by
                simp only [Place, hpc]
                exact ⟨hle, hnonneg, hend, h32, hmajor, hread⟩)
          exact running_transfer hmoved hpc (by simpa using hmore) hmaps
      · next c' page status hfail heq =>
          rw [heq] at hmapped
          obtain ⟨q, hq, rfl⟩ := hmapped.context
          obtain rfl | ⟨rfl, hrefused⟩ := hmapped.outcome
          · exact (hfail rfl).elim
          · refine h.move ⟨hs.tiles, hs.virtual_nonneg, hs.virtual_le, hs.total_le, hq⟩ rfl
              hmapped.page rfl rfl rfl rfl (fun _ => rfl)
              (.of_refused (by simp) (by simp) fun hg => ?_)
            obtain ⟨-, hmdl, haddress⟩ := hG hg
            simp [hmdl, haddress] at hrefused

theorem running_release {read write : Bool} {status : Status} (h : Running c₀ r₀ G c r)
    (hpc : r.pc = .release read write status) :
    Running c₀ r₀ G (r.release c read write status).1 (r.release c read write status).2 := by
  have hplace := h.place
  simp only [Place, hpc] at hplace
  have hs := h.sound
  refine h.move ⟨hs.tiles, hs.virtual_nonneg, hs.virtual_le, hs.total_le, hs.page⟩ rfl h.page
    rfl rfl rfl rfl (fun _ => rfl) ⟨⟨hplace.noError, fun hr hv hok => ?_, hplace.granted⟩, ?_⟩
  · have := hplace.served hr hv hok
    simpa [Request.release, Request.complete, hok] using this
  · intro hok
    simp [Request.release, Request.complete, hok]

/-! ### A request that runs alone -/

/-- The counters while `r` is the only request.  Readers that were never given back may be left
from earlier requests. -/
structure Alone (c : Context) (r : Request) : Prop where
  readers : (if r.holdsRead then 1 else 0) ≤ c.activeReaders
  writers : c.activeWriters = if r.holdsWrite then 1 else 0
  placed : Placed r ∨ r.Completed ∧ r.holdsWrite = false

theorem Alone.act (h : Alone c r) (x : Answer) : Alone (r.act c x).1 (r.act c x).2 := by
  by_cases hpast : PastEof c r
  · have hact : r.act c x = (c, r.complete .endOfFile 0) := by
      simp only [Request.act, hpast.1, Request.eofCheck, if_pos hpast.2]
    rw [hact]
    have hplaced : Placed r := by
      rcases h.placed with hp | ⟨⟨status, hc⟩, -⟩
      · exact hp
      · simp [hpast.1] at hc
    simp only [Placed, hpast.1] at hplaced
    exact ⟨h.readers, h.writers, .inr ⟨⟨_, rfl⟩, hplaced.2⟩⟩
  · rcases h.placed with hp | ⟨⟨status, hc⟩, hw⟩
    · have hr := h.readers
      have hw := h.writers
      have e := effect_act hp (by split at hr <;> omega) (by split at hw <;> omega) hpast x
      have her := e.readers
      have hew := e.writers
      exact ⟨by omega, by omega, .inl e.placed⟩
    · simp only [Request.act, hc]
      exact h

/-- One step of a request that runs alone. -/
theorem running_act (h : Running c₀ r₀ G c r) (hfresh : r₀.Fresh) (hrange : InRange c₀ r₀)
    (hr0 : 0 ≤ c₀.activeReaders) (hw0 : c₀.activeWriters = 0)
    (hG : G → Grants x ∧ c₀.activeReaders < 2 ^ 31 - 1) (halone : Alone c r) :
    Running c₀ r₀ G (r.act c x).1 (r.act c x).2 := by
  unfold Request.act
  split
  · next hpc => exact running_enter h hfresh hrange (fun hg => (hG hg).1) hpc
  · next hpc => exact running_acquire h (fun hg => (hG hg).2) hr0 hw0 hrange hpc
  · next hpc => exact running_eofCheck h hpc
  · next hpc => exact running_sizeCheck h hrange hpc
  · next hpc =>
      have hw := halone.writers
      exact running_upgrade h (by split at hw <;> omega) hrange hpc
  · next hpc => exact running_grow h x hpc
  · next hpc => exact running_downgrade h hrange hpc
  · next hpc => exact running_clip h hfresh hrange hpc
  · next hpc => exact running_copyPass h (fun hg => (hG hg).1) hpc
  · next hpc => exact running_release h hpc
  · exact h
  · exact h

/-- What is known after any number of steps. -/
theorem running_exec (hs : Sound c₀) (hfresh : r₀.Fresh) (hrange : InRange c₀ r₀)
    (hr0 : 0 ≤ c₀.activeReaders) (hw0 : c₀.activeWriters = 0) (xs : List Answer)
    (hG : G → (∀ x ∈ xs, Grants x) ∧ c₀.activeReaders < 2 ^ 31 - 1) :
    Running c₀ r₀ G (exec c₀ r₀ xs).1 (exec c₀ r₀ xs).2 ∧
      Alone (exec c₀ r₀ xs).1 (exec c₀ r₀ xs).2 := by
  refine List.foldlRecOn
    (motive := fun p : Context × Request => Running c₀ r₀ G p.1 p.2 ∧ Alone p.1 p.2) xs _ ?_ ?_
  · refine ⟨⟨hs, ?_, rfl, rfl, ?_, ?_, fun _ => rfl, ?_⟩, ?_, ?_, .inl ?_⟩
    · rw [hfresh.page]
      exact PageContext.empty_valid _
    · funext a
      rw [written, if_neg]
      rintro ⟨-, hle, hlt⟩
      simp only [hfresh.lengthDone, Nat.cast_zero, add_zero] at hle hlt
      omega
    · intro _ i hi
      simp [hfresh.lengthDone] at hi
    · simp only [Place, hfresh.pc, and_self]
    · simpa [hfresh.holdsRead] using hr0
    · simpa [hfresh.holdsWrite] using hw0
    · simp [Placed, hfresh.pc, hfresh.holdsRead, hfresh.holdsWrite]
  · rintro ⟨c, r⟩ ⟨hrun, halone⟩ x hx
    exact ⟨running_act hrun hfresh hrange hr0 hw0 (fun hg => ⟨(hG hg).1 x hx, (hG hg).2⟩) halone,
      halone.act x⟩

/-! ### Every request ends -/

/-- A bound for the steps that a request still takes: the pages that it can add, the bytes that it
has to copy and the steps around the two loops. -/
def rank (c : Context) (r : Request) : ℕ :=
  let pages := (r.newSize - c.totalSize).toNat
  let range := (r.endOffset - c.totalSize).toNat
  match r.pc with
  | .entry => 11 + pages + range + r.length
  | .acquire => 10 + pages + range + r.length
  | .eofCheck => 9 + pages + range + r.length
  | .sizeCheck => 8 + pages + range + r.length
  | .upgrade => 7 + pages + range + r.length
  | .grow => 6 + pages + r.length
  | .downgrade => 5 + r.length
  | .clip => 4 + r.length
  | .copy => 3 + (r.length - r.lengthDone)
  | .release _ _ _ => 1
  | .completed _ => 0
  | .fault => 0

theorem tryAcquireProtection_totalSize {forWrite owns : Bool} {status : Status}
    (h : tryAcquireProtection c forWrite owns = (c', status)) : c'.totalSize = c.totalSize := by
  have hc : c' = (tryAcquireProtection c forWrite owns).1 := by rw [h]
  rw [hc, tryAcquireProtection]
  split_ifs <;> rfl

theorem rank_enter (hpc : r.pc = .entry) (x : Answer) : rank c (r.enter x) < rank c r := by
  have hrank : 10 + (r.newSize - c.totalSize).toNat + (r.endOffset - c.totalSize).toNat +
      r.length < rank c r := by
    simp only [rank, hpc]
    omega
  have hdone : ∀ status, rank c (r.complete status 0) < rank c r := fun _ =>
    lt_of_le_of_lt (Nat.zero_le _) hrank
  rw [enter]
  split
  · split
    · exact hdone _
    · exact hrank
  · split
    · exact hdone _
    · split
      · exact hdone _
      · split
        · exact hdone _
        · exact hrank

theorem rank_acquire (hpc : r.pc = .acquire) :
    rank (r.acquire c).1 (r.acquire c).2 < rank c r := by
  have hrank : rank c r = 10 + (r.newSize - c.totalSize).toNat +
      ((r.byteOffset + r.length).bmod (2 ^ 64) - c.totalSize).toNat + r.length := by
    simp only [rank, hpc, endOffset]
  rw [Request.acquire, hrank]
  split
  · split
    · next c' heq =>
        have := tryAcquireProtection_totalSize heq
        simp only [rank]
        omega
    · simp only [rank, complete]
      omega
  · split
    · next c' heq =>
        have := tryAcquireProtection_totalSize heq
        simp only [rank, endOffset]
        omega
    · simp only [rank, complete]
      omega

theorem rank_upgrade (hpc : r.pc = .upgrade) :
    rank (r.upgrade c).1 (r.upgrade c).2 < rank c r := by
  rw [Request.upgrade]
  split
  · next c' heq =>
      have := tryAcquireProtection_totalSize heq
      simp only [rank, hpc]
      omega
  · simp only [rank, hpc]
    omega

theorem rank_grow (h : Running c₀ r₀ G c r) (hpc : r.pc = .grow) (x : Answer) :
    rank (r.grow c x).1 (r.grow c x).2 < rank c r := by
  have hplace := h.place
  simp only [Place, hpc] at hplace
  have hsized := setSizePass_spec h.sound hplace.2.1 hplace.2.2.1 x.grant
  rw [Request.grow]
  split
  · next c' heq =>
      rw [heq] at hsized
      obtain ⟨-, hmore, hless⟩ := hsized.goesOn rfl
      simp only [rank, hpc] at hmore ⊢
      omega
  · split
    · simp only [rank, hpc]
      omega
    · split <;> simp only [rank, hpc] <;> omega

theorem rank_clip (h : Running c₀ r₀ G c r) (hpc : r.pc = .clip) :
    rank c (r.clip c) < rank c r := by
  have hplace := h.place
  simp only [Place, hpc] at hplace
  obtain ⟨hdone, hlen, hnonneg, hsum, hread, hwrite⟩ := hplace
  rw [Request.clip]
  split
  · next hmore =>
      have hr : r.major = .read := by
        by_contra hr
        have := (hwrite hr).2
        omega
      have := hread hr
      simp only [rank, hpc]
      omega
  · simp only [rank, hpc]
    omega

theorem rank_copyPass (h : Running c₀ r₀ G c r) (hpc : r.pc = .copy) (x : Answer) :
    rank (r.copyPass c x).1 (r.copyPass c x).2 < rank c r := by
  have hplace := h.place
  simp only [Place, hpc] at hplace
  have hrank : rank c r = 3 + (r.length - r.lengthDone) := by simp only [rank, hpc]
  rw [Request.copyPass, hrank]
  split
  · simp only [rank]
    omega
  · next hmore =>
      split
      · next c' page _ =>
        split
        · next m _ =>
            obtain ⟨hpos, hle, -⟩ := bytesThisIter_spec (r := { r with page := page })
              hplace.2.2.2.1 (by simpa using hmore)
            unfold Request.transfer
            dsimp only at hle ⊢
            generalize ({ r with page := page } : Request).bytesThisIter = n at hpos hle ⊢
            split
            · simp only [rank]
              omega
            · split <;> simp only [rank, hpc] <;> omega
        · simp only [rank]
          omega
      · simp only [rank]
        omega

/-- Every step brings a request nearer to its end. -/
theorem rank_act (h : Running c₀ r₀ G c r) (hopen : ¬ r.Completed) (x : Answer) :
    rank (r.act c x).1 (r.act c x).2 < rank c r := by
  unfold Request.act
  split
  · next hpc => exact rank_enter hpc x
  · next hpc => exact rank_acquire hpc
  · next hpc =>
      rw [Request.eofCheck]
      split <;> simp only [rank, hpc, endOffset, complete] <;> omega
  · next hpc =>
      rw [Request.sizeCheck]
      split
      · split <;> simp only [rank, hpc, endOffset] <;> omega
      · simp only [rank, hpc]
        omega
  · next hpc => exact rank_upgrade hpc
  · next hpc => exact rank_grow h hpc x
  · next hpc =>
      simp only [rank, hpc]
      omega
  · next hpc => exact rank_clip h hpc
  · next hpc => exact rank_copyPass h hpc x
  · next hpc => simp [rank, hpc, Request.release, complete]
  · next status hpc => exact absurd ⟨status, hpc⟩ hopen
  · next hpc =>
      have hplace := h.place
      simp [Place, hpc] at hplace

/-- A request is complete after as many steps as its rank, whatever the system answers. -/
theorem completed_exec (hs : Sound c₀) (hfresh : r₀.Fresh) (hrange : InRange c₀ r₀)
    (hr0 : 0 ≤ c₀.activeReaders) (hw0 : c₀.activeWriters = 0) {xs : List Answer}
    (hxs : rank c₀ r₀ ≤ xs.length) : (exec c₀ r₀ xs).2.Completed := by
  have hpre : ∀ ys : List Answer, (exec c₀ r₀ ys).2.Completed ∨
      rank (exec c₀ r₀ ys).1 (exec c₀ r₀ ys).2 + ys.length ≤ rank c₀ r₀ := by
    intro ys
    induction ys using List.reverseRecOn with
    | nil => exact .inr le_rfl
    | append_singleton ys y ih =>
        have hstep : exec c₀ r₀ (ys ++ [y]) = (exec c₀ r₀ ys).2.act (exec c₀ r₀ ys).1 y := by
          rw [exec, List.foldl_append]
          rfl
        have hrun := (running_exec (G := False) hs hfresh hrange hr0 hw0 ys (by simp)).1
        rw [hstep, List.length_append, List.length_singleton]
        by_cases hc : (exec c₀ r₀ ys).2.Completed
        · left
          obtain ⟨status, hpc⟩ := hc
          simp only [Request.act, hpc]
          exact ⟨status, hpc⟩
        · have := rank_act hrun hc y
          have := ih.resolve_left hc
          right
          omega
  have hend := (running_exec (G := False) hs hfresh hrange hr0 hw0 xs (by simp)).1
  rcases hpre xs with hc | hle
  · exact hc
  · by_contra hc
    have := rank_act hend hc ⟨true, ⟨true, []⟩, ⟨true, true⟩⟩
    omega

end KernelDrivers.Awe
