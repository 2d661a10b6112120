import KernelDrivers.Fat.PagingIo
import KernelDrivers.Lib.Reach

/-!
# Runs of a paging-file transfer

What holds whenever the routine, the disk, the thread that marks the volume and the other transfers
take their steps, in any order.

## Main definitions

* `Tiles` — pieces that cover a stretch of the file one after the other, each at its place on the
  disk.
* `PagingIo.Orderly` — the pieces tile the request, the master is completed once and last, and the
  reserve is given back.
* `Spared` — the condition on each event.

## Main results

* `orderly_of_pagingReach` — every run that meets the condition is orderly, and ends.
* `not_orderly_failedDrain` — the reserve is lost when an earlier piece has failed.
-/

namespace KernelDrivers.Fat

/-- Bytes `vbo` to `vbo + n` of the file are on the disk from `lbo` on. -/
def PagingFile.Stretch (f : PagingFile) (vbo lbo n : ℕ) : Prop :=
  ∀ k < n, f.diskByte (vbo + k) = some (lbo + k)

/-- The pieces lead from `start` to `stop` without a gap, each of them where it is on the disk. -/
def Tiles (f : PagingFile) : ℕ → List Piece → ℕ → Prop
  | start, [], stop => stop = start
  | start, p :: ps, stop =>
      p.vbo = start ∧ 0 < p.length ∧ f.Stretch p.vbo p.lbo p.length ∧ Tiles f (start + p.length) ps stop

theorem Tiles.append {f : PagingFile} {start stop : ℕ} {ps : List Piece} {p : Piece}
    (h : Tiles f start ps stop) (hp : p.vbo = stop) (hpos : 0 < p.length)
    (hstretch : f.Stretch p.vbo p.lbo p.length) : Tiles f start (ps ++ [p]) (stop + p.length) := by
  induction ps generalizing start with
  | nil =>
      have hstop : stop = start := h
      exact ⟨hp.trans hstop, hpos, hstretch, by rw [hstop]; rfl⟩
  | cons q ps ih => exact ⟨h.1, h.2.1, h.2.2.1, ih h.2.2.2⟩

namespace PagingIo

variable {q : PagingRequest} {s : PagingIo}

/-- No piece is on its way. -/
def Landed (s : PagingIo) : Prop :=
  (∀ a ∈ s.assocs, a = .done) ∧ (s.master = .idle ∨ s.master = .back)

/-- The routine has returned and every piece is done. -/
def Ended (s : PagingIo) : Prop := s.pc = .returned ∧ s.Landed

structure Orderly (q : PagingRequest) (s : PagingIo) : Prop where
  tiles : ∃ stop ≤ q.stop, Tiles q.file q.vbo s.issued stop ∧
    (s.pc = .returned → stop = q.stop ∨ s.failed = true)
  once : s.completions ≤ 1
  last : s.completions = 1 → s.Landed
  answered : s.Ended → s.completions = 1
  reserve : s.pc = .returned → s.reserve ≠ .mine

/-! ### The invariant -/

/-- In the loop: `n` bytes of the run are to go, and the pieces reach up to `e`. -/
structure Loop (q : PagingRequest) (s : PagingIo) (n e : ℕ) : Prop where
  index_le : s.currentIndex ≤ s.lastIndex
  sum : s.vbo + s.byteCount = q.stop
  byteCount_pos : 0 < s.byteCount
  pos : 0 < n
  stretch : q.file.Stretch s.vbo s.nextLbo n
  ends : s.vbo + n = q.file.startByte (s.currentIndex + 1) ∨
    (s.vbo + n = q.stop ∧ q.stop ≤ q.file.startByte (s.currentIndex + 1))
  tiles : Tiles q.file q.vbo s.issued e

/-- The piece is cut to its size. -/
structure Cut (s : PagingIo) : Prop where
  pos : 0 < s.nextByteCount
  le : s.nextByteCount + s.remainingByteCount ≤ s.byteCount

/-- There is an associated request left for each run to come. -/
def Enough (s : PagingIo) : Prop := s.lastIndex + 1 ≤ s.irpCount + s.currentIndex

def Place (q : PagingRequest) (s : PagingIo) : Prop :=
  match s.pc with
  | .enter => False
  | .allocate => Loop q s s.nextByteCount s.vbo ∧ s.Enough ∧ s.master = .idle ∧
      s.mdlIsReserve = false ∧ s.reserve ≠ .mine
  | .waitReserve => Loop q s s.nextByteCount s.vbo ∧ s.nextByteCount ≤ s.byteCount ∧
      s.Enough ∧ s.master = .idle ∧ s.mdlIsReserve = false ∧ s.reserve ≠ .mine
  | .associate | .drain => Loop q s (s.nextByteCount + s.remainingByteCount) s.vbo ∧ s.Cut ∧
      s.Enough ∧ s.master = .idle ∧ (s.mdlIsReserve = false → s.remainingByteCount = 0) ∧
      (s.reserve = .mine → s.mdlIsReserve = true)
  | .waitMaster => Loop q s (s.nextByteCount + s.remainingByteCount) (s.vbo + s.nextByteCount) ∧
      s.Cut ∧ s.Enough ∧ s.master ≠ .idle ∧
      (s.reserve = .mine → s.mdlIsReserve = true ∧ s.master = .down)
  | .advance => Loop q s (s.nextByteCount + s.remainingByteCount) (s.vbo + s.nextByteCount) ∧
      s.Cut ∧ (s.Enough ∨ (s.lastIndex ≤ s.irpCount + s.currentIndex ∧ s.remainingByteCount = 0)) ∧
      s.master = .idle ∧ s.mdlIsReserve = false ∧ s.reserve ≠ .mine
  | .finish | .returned => s.master = .idle ∧
      ∃ e ≤ q.stop, Tiles q.file q.vbo s.issued e ∧ (e = q.stop ∨ s.failed = true)

/-- The count of the master is that of the associated requests that are not done or not made. -/
structure Counts (s : PagingIo) : Prop where
  sum : s.masterCount + s.assocs.count .done = s.irpCount + s.assocs.length
  byHand : s.pc = .returned → s.irpCount ≠ 0 → s.completions = 1 ∧ s.masterCount = s.irpCount
  bySystem : s.pc ≠ .returned ∨ s.irpCount = 0 →
    s.completions = if s.masterCount = 0 then 1 else 0

/-- The run in which the request ends. -/
structure LastRun (q : PagingRequest) (i : ℕ) : Prop where
  exists_run : ∃ r, q.file.mcb[i]? = some r
  start_lt : q.file.startByte i < q.stop
  stop_le : q.stop ≤ q.file.startByte (i + 1)

structure Looping (q : PagingRequest) (s : PagingIo) : Prop where
  passed : s.passed = false
  last : LastRun q s.lastIndex
  counts : s.Counts
  place : s.Place q

structure Entering (s : PagingIo) : Prop where
  pc : s.pc = .enter
  issued : s.issued = []
  assocs : s.assocs = []
  master : s.master = .idle
  passed : s.passed = false
  mdlIsReserve : s.mdlIsReserve = false
  reserve : s.reserve ≠ .mine
  completions : s.completions = 0

/-- The request lies in one run, and has gone down as it is. -/
structure Passed (q : PagingRequest) (s : PagingIo) : Prop where
  pc : s.pc = .returned
  issued : ∃ lbo, s.issued = [⟨q.vbo, lbo, q.byteCount⟩] ∧
    q.file.Stretch q.vbo lbo q.byteCount
  assocs : s.assocs = []
  master : s.master ≠ .idle
  passed : s.passed = true
  mdlIsReserve : s.mdlIsReserve = false
  reserve : s.reserve ≠ .mine
  completions : s.completions = if s.master = .back then 1 else 0

inductive Inv (q : PagingRequest) (s : PagingIo) : Prop
  | entering (h : s.Entering)
  | passed (h : s.Passed q)
  | looping (h : s.Looping q)

/-! ### Steps of the routine -/

theorem exists_last (q : PagingRequest) : ∃ lbo count i,
    fatLookupMcbEntry q.file.g q.file.mcb (q.vbo + q.byteCount - 1) = some (lbo, count, i) ∧
      LastRun q i := by
  have hpos := q.byteCount_pos
  have hinside := q.inside
  obtain ⟨lbo, count, i, r, hentry, hr, hle, hlt⟩ :=
    PagingFile.exists_lookupEntry (f := q.file) (v := q.vbo + q.byteCount - 1) (by omega)
  refine ⟨lbo, count, i, hentry, ⟨r, hr⟩, ?_, ?_⟩
  · rw [PagingRequest.stop]
    omega
  · rw [PagingRequest.stop]
    omega

theorem Entering.enter (h : s.Entering) : Inv q (s.enter q) := by
  obtain ⟨lbo, count, first, r, hfirst, hr, hstart, hlt, hcount, hle, hstretch⟩ := q.exists_first
  obtain ⟨lbo', count', last, hlast, hrun⟩ := exists_last q
  have hpos := q.byteCount_pos
  have hstop : q.stop = q.vbo + q.byteCount := rfl
  rw [PagingIo.enter, hfirst, hlast]
  dsimp only
  split
  · next hone =>
      refine .passed ⟨rfl, ⟨lbo, by simp [h.issued], fun k hk => hstretch k (by omega)⟩, h.assocs,
        by simp, rfl, h.mdlIsReserve, h.reserve, by simp [h.completions]⟩
  · next hmore =>
      have hend := hcount.resolve_left hmore
      -- the last byte is not in front of the first run
      have hindex : first ≤ last := by
        by_contra hgt
        have := PagingFile.startByte_mono (f := q.file) (show last + 1 ≤ first by omega)
        have := hrun.stop_le
        omega
      refine .looping ⟨h.passed, hrun, ⟨by simp [h.assocs], by simp, fun _ => ?_⟩, ?_⟩
      · simp [h.completions]
      · refine ⟨⟨hindex, rfl, hpos, ?_, hstretch, Or.inl hend, ?_⟩, ?_, h.master, h.mdlIsReserve,
          h.reserve⟩
        · dsimp only
          omega
        · rw [h.issued]
          rfl
        · change last + 1 ≤ last - first + 1 + first
          omega

theorem Counts.congr {s' : PagingIo} (h : s.Counts) (hpc : s.pc ≠ .returned)
    (hpc' : s'.pc ≠ .returned) (hm : s'.masterCount = s.masterCount) (hi : s'.irpCount = s.irpCount)
    (ha : s'.assocs = s.assocs) (hc : s'.completions = s.completions) : s'.Counts := by
  refine ⟨by rw [hm, ha, hi]; exact h.sum, fun hr => absurd hr hpc', fun _ => ?_⟩
  rw [hc, hm]
  exact h.bySystem (Or.inl hpc)

theorem Looping.allocate (h : s.Looping q) (hpc : s.pc = .allocate) (mdl : Bool) :
    (s.allocate mdl).Looping q := by
  have hp := h.place
  rw [Place, hpc] at hp
  obtain ⟨hloop, henough, hmaster, hmdl, hreserve⟩ := hp
  have hsum := hloop.sum
  have hpos := hloop.byteCount_pos
  have hn := hloop.pos
  have hnew : Loop q (s.allocate mdl) (min s.nextByteCount s.byteCount) s.vbo := by
    refine ⟨hloop.index_le, hsum, hpos, by omega, fun k hk => hloop.stretch k (by omega), ?_,
      hloop.tiles⟩
    change s.vbo + min s.nextByteCount s.byteCount = q.file.startByte (s.currentIndex + 1) ∨
      (s.vbo + min s.nextByteCount s.byteCount = q.stop ∧
        q.stop ≤ q.file.startByte (s.currentIndex + 1))
    rcases hloop.ends with hend | ⟨hend, hle⟩
    · omega
    · omega
  have hcounts : (s.allocate mdl).Counts := by
    refine h.counts.congr (by simp [hpc]) ?_ rfl rfl rfl rfl
    cases mdl <;> simp [PagingIo.allocate]
  refine ⟨h.passed, h.last, hcounts, ?_⟩
  cases mdl with
  | false => exact ⟨hnew, Nat.min_le_right _ _, henough, hmaster, hmdl, hreserve⟩
  | true =>
      refine ⟨hnew, ⟨?_, Nat.min_le_right _ _⟩, henough, hmaster, fun _ => rfl, fun hr => ?_⟩
      · exact lt_min hn hpos
      · exact absurd hr hreserve

theorem Looping.waitReserve (h : s.Looping q) (hpc : s.pc = .waitReserve) :
    s.waitReserve.Looping q := by
  have hp := h.place
  rw [Place, hpc] at hp
  obtain ⟨hloop, hle, henough, hmaster, hmdl, hreserve⟩ := hp
  have hn := hloop.pos
  rw [PagingIo.waitReserve]
  split
  · have hsum : min s.nextByteCount reserveBytes + (s.nextByteCount - reserveBytes) =
        s.nextByteCount := by omega
    refine ⟨h.passed, h.last, h.counts.congr (by simp [hpc]) (by simp) rfl rfl rfl rfl, ?_⟩
    refine ⟨?_, ⟨?_, ?_⟩, henough, hmaster, fun hf => by simp at hf, fun _ => rfl⟩
    · dsimp only
      rw [hsum]
      exact ⟨hloop.index_le, hloop.sum, hloop.byteCount_pos, hn, hloop.stretch, hloop.ends, hloop.tiles⟩
    · exact lt_min hn (by decide)
    · dsimp only
      omega
  · exact h

/-- The piece that the locals describe goes down. -/
theorem Loop.issue {n : ℕ} (h : Loop q s (s.nextByteCount + n) s.vbo) (hcut : s.Cut) :
    Tiles q.file q.vbo (s.issued ++ [s.piece]) (s.vbo + s.nextByteCount) :=
  h.tiles.append rfl hcut.pos fun k hk => h.stretch k (Nat.lt_add_right n hk)

theorem Looping.associate (h : s.Looping q) (hpc : s.pc = .associate) (irp : Bool) :
    (s.associate irp).Looping q := by
  have hp := h.place
  rw [Place, hpc] at hp
  obtain ⟨hloop, hcut, henough, hmaster, hrest, hreserve⟩ := hp
  have henough' : s.lastIndex + 1 ≤ s.irpCount + s.currentIndex := henough
  have hindex := hloop.index_le
  rw [PagingIo.associate]
  split
  · next hassoc =>
      have hmdl : s.mdlIsReserve = false := by simpa using hassoc.1
      refine ⟨h.passed, h.last, ⟨?_, by simp, fun _ => ?_⟩, ?_⟩
      · have := h.counts.sum
        simp only [List.count_append, List.length_append, List.count_singleton, List.length_singleton]
        simp
        omega
      · exact h.counts.bySystem (Or.inl (by simp [hpc]))
      · refine ⟨⟨hindex, hloop.sum, hloop.byteCount_pos, hloop.pos, hloop.stretch, hloop.ends,
          hloop.issue hcut⟩, ⟨hcut.pos, hcut.le⟩, Or.inr ⟨?_, hrest hmdl⟩, hmaster, hmdl, fun hr => ?_⟩
        · dsimp only
          omega
        · simp [hreserve hr] at hmdl
  · refine ⟨h.passed, h.last, h.counts.congr (by simp [hpc]) (by simp) rfl rfl rfl rfl, ?_⟩
    exact ⟨⟨hindex, hloop.sum, hloop.byteCount_pos, hloop.pos, hloop.stretch, hloop.ends,
      hloop.tiles⟩, ⟨hcut.pos, hcut.le⟩, henough, hmaster, hrest, hreserve⟩

theorem Looping.drain (h : s.Looping q) (hpc : s.pc = .drain) : s.drain.Looping q := by
  have hp := h.place
  rw [Place, hpc] at hp
  obtain ⟨hloop, hcut, henough, hmaster, hrest, hreserve⟩ := hp
  have hsum := hloop.sum
  rw [PagingIo.drain]
  split
  · exact h
  split
  · next hfailed =>
      refine ⟨h.passed, h.last, h.counts.congr (by simp [hpc]) (by simp) rfl rfl rfl rfl, ?_⟩
      exact ⟨hmaster, s.vbo, by omega, hloop.tiles, Or.inr hfailed⟩
  · refine ⟨h.passed, h.last, h.counts.congr (by simp [hpc]) (by simp) rfl rfl rfl rfl, ?_⟩
    exact ⟨⟨hloop.index_le, hsum, hloop.byteCount_pos, hloop.pos, hloop.stretch, hloop.ends,
      hloop.issue hcut⟩, ⟨hcut.pos, hcut.le⟩, henough, by simp, fun hr => ⟨hreserve hr, rfl⟩⟩

theorem Looping.waitMaster (h : s.Looping q) (hpc : s.pc = .waitMaster) : s.waitMaster.Looping q := by
  have hp := h.place
  rw [Place, hpc] at hp
  obtain ⟨hloop, hcut, henough, -, hreserve⟩ := hp
  have hsum := hloop.sum
  have hle := hcut.le
  rw [PagingIo.waitMaster]
  split
  · next hback =>
      have hnot : s.reserve ≠ .mine := fun hr => by simp [hback] at hreserve; exact hreserve hr
      cases hfailed : s.failed with
      | true =>
          refine ⟨h.passed, h.last, h.counts.congr (by simp [hpc]) (by simp) rfl rfl rfl rfl, ?_⟩
          exact ⟨rfl, s.vbo + s.nextByteCount, by omega, hloop.tiles, Or.inr rfl⟩
      | false =>
          refine ⟨h.passed, h.last, h.counts.congr (by simp [hpc]) (by simp) rfl rfl rfl rfl, ?_⟩
          exact ⟨⟨hloop.index_le, hsum, hloop.byteCount_pos, hloop.pos, hloop.stretch, hloop.ends,
            hloop.tiles⟩, ⟨hcut.pos, hle⟩, Or.inl henough, rfl, rfl, hnot⟩
  · exact h

theorem Looping.advance (h : s.Looping q) (hpc : s.pc = .advance) : (s.advance q).Looping q := by
  have hp := h.place
  rw [Place, hpc] at hp
  obtain ⟨hloop, hcut, henough, hmaster, hmdl, hreserve⟩ := hp
  have hsum := hloop.sum
  have hpos := hcut.pos
  have hle := hcut.le
  have hindex := hloop.index_le
  have hends := hloop.ends
  have hstop := h.last.stop_le
  rw [PagingIo.advance]
  split
  · -- the rest of the run
    next hrest =>
      refine ⟨h.passed, h.last, h.counts.congr (by simp [hpc]) (by simp) rfl rfl rfl rfl, ?_⟩
      refine ⟨⟨hindex, ?_, ?_, ?_, fun k hk => ?_, ?_, hloop.tiles⟩, ?_, hmaster, hmdl, hreserve⟩
      · dsimp only
        omega
      · dsimp only
        omega
      · exact Nat.pos_of_ne_zero hrest
      · dsimp only at hk ⊢
        rw [Nat.add_assoc, hloop.stretch _ (by omega), Nat.add_assoc]
      · dsimp only
        rw [Nat.add_assoc]
        exact hends
      · exact henough.resolve_right fun hz => hrest hz.2
  · next hrest =>
      have hzero : s.remainingByteCount = 0 := by simpa using hrest
      rw [hzero, Nat.add_zero] at hends
      have hcount : s.lastIndex ≤ s.irpCount + s.currentIndex := by
        rcases henough with hmore | ⟨hmore, -⟩
        · have : s.lastIndex + 1 ≤ s.irpCount + s.currentIndex := hmore
          omega
        · exact hmore
      split
      · -- the next run, which is not behind the end of the request
        next hnext =>
          have hbefore := PagingFile.startByte_mono (f := q.file) hnext
          have hlt := h.last.start_lt
          have hend : s.vbo + s.nextByteCount = q.file.startByte (s.currentIndex + 1) := by
            rcases hends with hend | ⟨hend, hge⟩
            · exact hend
            · omega
          obtain ⟨r', hr'⟩ := h.last.exists_run
          have hlen := (List.getElem?_eq_some_iff.mp hr').1
          obtain ⟨r, hr⟩ : ∃ r, q.file.mcb[s.currentIndex + 1]? = some r :=
            ⟨_, List.getElem?_eq_getElem (by omega)⟩
          obtain ⟨vbo, lbo, hentry, hstretch⟩ := PagingFile.exists_nextEntry hr (by omega)
          have hsucc := PagingFile.startByte_succ hr
          have hrpos := Nat.mul_pos (q.file.count_pos r (List.mem_of_getElem? hr))
            q.file.g.sectorSize_pos
          rw [hentry, Option.getD_some]
          refine ⟨h.passed, h.last, h.counts.congr (by simp [hpc]) (by simp) rfl rfl rfl rfl, ?_⟩
          refine ⟨⟨hnext, ?_, ?_, ?_, ?_, ?_, hloop.tiles⟩, ?_, hmaster, hmdl, hreserve⟩
          · dsimp only
            omega
          · dsimp only
            omega
          · dsimp only
            omega
          · dsimp only
            rw [hend]
            exact hstretch
          · left
            dsimp only
            omega
          · change s.lastIndex + 1 ≤ s.irpCount + (s.currentIndex + 1)
            omega
      · next hnext =>
          have heq : s.currentIndex = s.lastIndex := by omega
          refine ⟨h.passed, h.last, h.counts.congr (by simp [hpc]) (by simp) rfl rfl rfl rfl, ?_⟩
          refine ⟨hmaster, s.vbo + s.nextByteCount, by omega, hloop.tiles, Or.inl ?_⟩
          rw [heq] at hends
          omega

theorem Looping.finish (h : s.Looping q) (hpc : s.pc = .finish) : s.finish.Looping q := by
  have hp := h.place
  rw [Place, hpc] at hp
  have hsystem := h.counts.bySystem (Or.inl (by simp [hpc]))
  rw [PagingIo.finish]
  split
  · next hzero => exact ⟨h.passed, h.last, ⟨h.counts.sum, fun _ hne => absurd hzero hne, fun _ => hsystem⟩, hp⟩
  split
  · exact h
  · next hne hdrained =>
      have heq : s.masterCount = s.irpCount := by simpa using hdrained
      refine ⟨h.passed, h.last, ⟨h.counts.sum, fun _ _ => ⟨?_, heq⟩, fun hor => ?_⟩, hp⟩
      · dsimp only
        rw [hsystem, heq, if_neg hne]
      · exact absurd (hor.resolve_left (by simp)) hne

theorem Inv.run (h : Inv q s) (mdl irp : Bool) : Inv q (s.run q mdl irp) := by
  rw [PagingIo.run]
  cases h with
  | entering h =>
      rw [h.pc]
      exact h.enter
  | passed h =>
      rw [h.pc]
      exact .passed h
  | looping h =>
      split
      · next hpc =>
          have hp := h.place
          rw [Place, hpc] at hp
          exact hp.elim
      · next hpc => exact .looping (h.allocate hpc mdl)
      · next hpc => exact .looping (h.waitReserve hpc)
      · next hpc => exact .looping (h.associate hpc irp)
      · next hpc => exact .looping (h.drain hpc)
      · next hpc => exact .looping (h.waitMaster hpc)
      · next hpc => exact .looping (h.advance hpc)
      · next hpc => exact .looping (h.finish hpc)
      · exact .looping h

/-! ### Steps of the others -/

/-- What the disk and the other transfers change of the state at a place of the routine. -/
theorem Place.frame {s' : PagingIo} (h : s.Place q)
    (hs : s' = { s with
      assocs := s'.assocs, masterCount := s'.masterCount, completions := s'.completions,
      failed := s'.failed, reserve := s'.reserve })
    (hfailed : s.failed = true → s'.failed = true) (hreserve : s'.reserve = .mine → s.reserve = .mine) :
    s'.Place q := by
  have hloop : ∀ {n e}, Loop q s n e → Loop q s' n e := by
    intro n e hl
    rw [hs]
    exact ⟨hl.index_le, hl.sum, hl.byteCount_pos, hl.pos, hl.stretch, hl.ends, hl.tiles⟩
  have hcut : s.Cut → s'.Cut := by
    intro hc
    rw [hs]
    exact ⟨hc.pos, hc.le⟩
  have henough : s.Enough → s'.Enough := by
    intro he
    rw [hs]
    exact he
  have hpc : s'.pc = s.pc := by rw [hs]
  have hvbo : s'.vbo = s.vbo := by rw [hs]
  have hnext : s'.nextByteCount = s.nextByteCount := by rw [hs]
  have hremaining : s'.remainingByteCount = s.remainingByteCount := by rw [hs]
  have hbyte : s'.byteCount = s.byteCount := by rw [hs]
  have hmaster : s'.master = s.master := by rw [hs]
  have hmdl : s'.mdlIsReserve = s.mdlIsReserve := by rw [hs]
  have hlast : s'.lastIndex = s.lastIndex := by rw [hs]
  have hindex : s'.currentIndex = s.currentIndex := by rw [hs]
  have hirp : s'.irpCount = s.irpCount := by rw [hs]
  have hissued : s'.issued = s.issued := by rw [hs]
  unfold Place at *
  rw [hpc]
  split at h
  · exact h
  · obtain ⟨h1, h2, h3, h4, h5⟩ := h
    rw [hvbo, hnext, hmaster, hmdl]
    exact ⟨hloop h1, henough h2, h3, h4, fun hr => h5 (hreserve hr)⟩
  · obtain ⟨h1, h2, h3, h4, h5, h6⟩ := h
    rw [hvbo, hnext, hmaster, hmdl, hbyte]
    exact ⟨hloop h1, h2, henough h3, h4, h5, fun hr => h6 (hreserve hr)⟩
  · obtain ⟨h1, h2, h3, h4, h5, h6⟩ := h
    rw [hvbo, hnext, hmaster, hmdl, hremaining]
    exact ⟨hloop h1, hcut h2, henough h3, h4, h5, fun hr => h6 (hreserve hr)⟩
  · obtain ⟨h1, h2, h3, h4, h5, h6⟩ := h
    rw [hvbo, hnext, hmaster, hmdl, hremaining]
    exact ⟨hloop h1, hcut h2, henough h3, h4, h5, fun hr => h6 (hreserve hr)⟩
  · obtain ⟨h1, h2, h3, h4, h5⟩ := h
    rw [hvbo, hnext, hmaster, hmdl, hremaining]
    exact ⟨hloop h1, hcut h2, henough h3, h4, fun hr => h5 (hreserve hr)⟩
  · obtain ⟨h1, h2, h3, h4, h5, h6⟩ := h
    rw [hvbo, hnext, hmaster, hmdl, hremaining, hlast, hirp, hindex]
    exact ⟨hloop h1, hcut h2, h3.imp henough id, h4, h5, fun hr => h6 (hreserve hr)⟩
  · obtain ⟨h1, e, he, h2, h3⟩ := h
    rw [hmaster, hissued]
    exact ⟨h1, e, he, h2, h3.imp id hfailed⟩
  · obtain ⟨h1, e, he, h2, h3⟩ := h
    rw [hmaster, hissued]
    exact ⟨h1, e, he, h2, h3.imp id hfailed⟩

theorem count_set_done {as : List AssocState} {i : ℕ} {a : AssocState} (h : as[i]? = some a)
    (ha : a ≠ .done) : (as.set i .done).count .done = as.count .done + 1 := by
  induction as generalizing i with
  | nil => cases h
  | cons b as ih =>
      cases i with
      | zero =>
          cases h
          simp [ha]
      | succ i =>
          rw [List.set_cons_succ, List.count_cons, List.count_cons, ih h]
          omega

theorem count_set_failed {as : List AssocState} {i : ℕ} {a : AssocState} (h : as[i]? = some a)
    (ha : a ≠ .done) : (as.set i .failed).count .done = as.count .done := by
  induction as generalizing i with
  | nil => cases h
  | cons b as ih =>
      cases i with
      | zero =>
          cases h
          simp [ha]
      | succ i => rw [List.set_cons_succ, List.count_cons, List.count_cons, ih h]

/-- A request that is not done is still counted. -/
theorem Counts.lt_masterCount (h : s.Counts) {i : ℕ} {a : AssocState} (hi : s.assocs[i]? = some a)
    (ha : a ≠ .done) : s.irpCount < s.masterCount := by
  have hlen : s.assocs.count .done < s.assocs.length := by
    refine lt_of_le_of_ne List.count_le_length fun heq => ha ?_
    exact (List.count_eq_length.mp heq a (List.mem_of_getElem? hi)).symm
  have := h.sum
  omega

theorem Looping.assocDone (h : s.Looping q) {i : ℕ} {a : AssocState} (hi : s.assocs[i]? = some a)
    (ha : a ≠ .done) : (s.assocDone i).Looping q := by
  have hlt := h.counts.lt_masterCount hi ha
  have hsum := h.counts.sum
  refine ⟨h.passed, h.last, ⟨?_, fun hpc hne => ?_, fun hor => ?_⟩, h.place.frame rfl id id⟩
  · change s.masterCount - 1 + (s.assocs.set i .done).count .done =
      s.irpCount + (s.assocs.set i .done).length
    rw [count_set_done hi ha, List.length_set]
    omega
  · have := h.counts.byHand hpc hne
    omega
  · have hsystem := h.counts.bySystem hor
    rw [if_neg (by omega)] at hsystem
    change (if s.masterCount = 1 then s.completions + 1 else s.completions) =
      if s.masterCount - 1 = 0 then 1 else 0
    by_cases hone : s.masterCount = 1
    · rw [if_pos hone, if_pos (by omega), hsystem]
    · rw [if_neg hone, if_neg (by omega), hsystem]

theorem Inv.assoc (h : Inv q s) (i : ℕ) (ok : Bool) : Inv q (s.assoc i ok) := by
  rw [PagingIo.assoc]
  cases h with
  | entering h =>
      rw [h.assocs]
      exact .entering h
  | passed h =>
      rw [h.assocs]
      exact .passed h
  | looping h =>
      split
      · next hi =>
          split
          · exact .looping (h.assocDone hi (by simp))
          · have hlt := h.counts.lt_masterCount hi (by simp)
            refine .looping ⟨h.passed, h.last, ⟨?_, fun hpc hne => ?_, fun hor => ?_⟩, ?_⟩
            · dsimp only
              rw [count_set_failed hi (by simp), List.length_set]
              exact h.counts.sum
            · exact h.counts.byHand hpc hne
            · exact h.counts.bySystem hor
            · exact h.place.frame rfl (fun _ => rfl) id
      · next hi => exact .looping (h.assocDone hi (by simp))
      · exact .looping h

theorem Inv.masterDone (h : Inv q s) (ok : Bool) : Inv q (s.masterDone ok) := by
  cases h with
  | entering h =>
      rw [PagingIo.masterDone, h.master]
      exact .entering h
  | passed h =>
      have hc := h.completions
      rw [PagingIo.masterDone]
      split
      · next hdown =>
          rw [hdown] at hc
          have hkeep : (if s.mdlIsReserve then Reserve.free else s.reserve) ≠ .mine := by
            rw [if_neg (by simp [h.mdlIsReserve])]
            exact h.reserve
          dsimp only
          rw [if_pos h.passed]
          cases ok with
          | true =>
              exact .passed ⟨h.pc, h.issued, h.assocs, by simp, h.passed, h.mdlIsReserve, hkeep,
                by simp [hc]⟩
          | false =>
              exact .passed ⟨h.pc, h.issued, h.assocs, by simp, h.passed, h.mdlIsReserve, hkeep,
                by simp [hc]⟩
      · next hcaught =>
          rw [hcaught] at hc
          rw [if_pos h.passed]
          exact .passed ⟨h.pc, h.issued, h.assocs, by simp, h.passed, h.mdlIsReserve, h.reserve,
            by simp [hc]⟩
      · exact .passed h
  | looping h =>
      by_cases hidle : s.master = .idle
      · rw [PagingIo.masterDone, hidle]
        exact .looping h
      · -- the master is down only while the routine waits for it
        have hpc : s.pc = .waitMaster := by
          have hp := h.place
          unfold Place at hp
          cases hpc : s.pc <;> simp_all
        have hp := h.place
        rw [Place, hpc] at hp
        obtain ⟨hloop, hcut, henough, -, hreserve⟩ := hp
        have hback : ∀ failed reserve master, master ≠ .idle → reserve ≠ .mine →
            Inv q { s with failed := failed, reserve := reserve, master := master } := by
          intro failed reserve master hm hr
          refine .looping ⟨h.passed, h.last, h.counts.congr (by simp [hpc]) (by simp [hpc]) rfl rfl
            rfl rfl, ?_⟩
          rw [Place]
          simp only [hpc]
          exact ⟨⟨hloop.index_le, hloop.sum, hloop.byteCount_pos, hloop.pos, hloop.stretch,
            hloop.ends, hloop.tiles⟩, ⟨hcut.pos, hcut.le⟩, henough, hm, fun hr' => absurd hr' hr⟩
        have hfree : (if s.mdlIsReserve then Reserve.free else s.reserve) ≠ .mine := by
          split
          · simp
          · next hmdl => exact fun hr => hmdl (hreserve hr).1
        rw [PagingIo.masterDone]
        split
        · dsimp only
          cases ok with
          | true =>
              rw [if_pos rfl, if_neg (by simp [h.passed])]
              exact hback _ _ _ (by simp) hfree
          | false => exact hback _ _ _ (by simp) hfree
        · next hcaught =>
            rw [if_neg (by simp [h.passed])]
            refine hback s.failed s.reserve .back (by simp) fun hr => ?_
            have := (hreserve hr).2
            simp [hcaught] at this
        · exact .looping h

theorem Inv.others (h : Inv q s) : Inv q s.others := by
  have hmove : ∀ reserve, reserve ≠ .mine → Inv q { s with reserve := reserve } := by
    intro reserve hr
    cases h with
    | entering h =>
        exact .entering ⟨h.pc, h.issued, h.assocs, h.master, h.passed, h.mdlIsReserve, hr,
          h.completions⟩
    | passed h =>
        exact .passed ⟨h.pc, h.issued, h.assocs, h.master, h.passed, h.mdlIsReserve, hr,
          h.completions⟩
    | looping h =>
        exact .looping ⟨h.passed, h.last, ⟨h.counts.sum, h.counts.byHand, h.counts.bySystem⟩,
          h.place.frame rfl id fun hr' => absurd hr' hr⟩
  rw [PagingIo.others]
  split
  · exact hmove .other (by simp)
  · exact hmove .free (by simp)
  · exact h

theorem Inv.step (h : Inv q s) (e : PagingEvent) : Inv q (s.step q e) := by
  cases e with
  | run mdl irp => exact h.run mdl irp
  | assoc i ok => exact h.assoc i ok
  | master ok => exact h.masterDone ok
  | others => exact h.others

theorem inv_start (q : PagingRequest) (busy : Bool) : Inv q (start busy) := by
  refine .entering ⟨rfl, rfl, rfl, rfl, rfl, rfl, ?_, rfl⟩
  cases busy <;> simp [start]

end PagingIo

/-! ### The way to the end -/

def PagingPc.rank : PagingPc → ℕ
  | .enter => 0
  | .allocate => 12
  | .waitReserve => 11
  | .associate => 10
  | .drain => 9
  | .waitMaster => 3
  | .advance => 2
  | .finish => 1
  | .returned => 0

def AssocState.rank : AssocState → ℕ
  | .down => 2
  | .failed => 1
  | .done => 0

def MasterState.rank : MasterState → ℕ
  | .idle => 0
  | .down => 3
  | .caught => 2
  | .back => 1

namespace PagingIo

variable {q : PagingRequest} {s : PagingIo}

/-- The bytes that are to be sent yet. -/
def toGo (q : PagingRequest) (s : PagingIo) : ℕ :=
  match s.pc with
  | .enter => q.byteCount + 1
  | .finish => 0
  | .returned => 0
  | _ => s.byteCount

/-- What is left to be done, by all parties. -/
def rank (q : PagingRequest) (s : PagingIo) : ℕ :=
  16 * s.toGo q + s.pc.rank + (s.assocs.map AssocState.rank).sum + s.master.rank +
    (if s.reserve = .other then 1 else 0)

theorem sum_rank_set {as : List AssocState} {i : ℕ} {a : AssocState} (b : AssocState)
    (h : as[i]? = some a) :
    ((as.set i b).map AssocState.rank).sum + a.rank = (as.map AssocState.rank).sum + b.rank := by
  induction as generalizing i with
  | nil => cases h
  | cons c as ih =>
      cases i with
      | zero =>
          cases h
          simp only [List.set_cons_zero, List.map_cons, List.sum_cons]
          omega
      | succ i =>
          have := ih h
          simp only [List.set_cons_succ, List.map_cons, List.sum_cons]
          omega

/-- The disk can go on with a request that is not done. -/
theorem rank_assoc_lt {i : ℕ} {a : AssocState} (hi : s.assocs[i]? = some a) (ha : a ≠ .done) :
    (s.assoc i true).rank q < s.rank q := by
  have hsum := sum_rank_set .done hi
  have hdone : (s.assoc i true).rank q = (s.assocDone i).rank q := by
    rw [PagingIo.assoc, hi]
    cases a with
    | down => rfl
    | failed => rfl
    | done => exact absurd rfl ha
  have hpos : 0 < a.rank := by cases a <;> simp_all [AssocState.rank]
  have hrank : (s.assocDone i).rank q = 16 * s.toGo q + s.pc.rank +
      ((s.assocs.set i .done).map AssocState.rank).sum + s.master.rank +
      (if s.reserve = .other then 1 else 0) := rfl
  have hzero : AssocState.done.rank = 0 := rfl
  rw [hdone, hrank, rank]
  omega

theorem exists_not_done (h : s.Counts) (hne : s.masterCount ≠ s.irpCount) :
    ∃ (i : ℕ) (a : AssocState), s.assocs[i]? = some a ∧ a ≠ .done := by
  by_contra hall
  refine hne ?_
  have hcount : s.assocs.count .done = s.assocs.length := by
    refine List.count_eq_length.mpr fun a ha => ?_
    by_contra hnot
    obtain ⟨i, hi⟩ := List.getElem?_of_mem ha
    exact hall ⟨i, a, hi, Ne.symm hnot⟩
  have := h.sum
  omega

theorem rank_masterDone_lt (h : s.master = .down ∨ s.master = .caught) :
    (s.masterDone true).rank q < s.rank q := by
  rcases h with hm | hm
  · have hother : (if (if s.mdlIsReserve then Reserve.free else s.reserve) = .other then 1 else 0) ≤
        if s.reserve = .other then 1 else 0 := by
      by_cases hr : s.mdlIsReserve <;> simp [hr]
    cases hp : s.passed <;>
    · simp only [PagingIo.masterDone, rank, toGo, hm, hp, MasterState.rank]
      simp
      omega
  · cases hp : s.passed <;>
    · simp only [PagingIo.masterDone, rank, toGo, hm, hp, MasterState.rank]
      simp

/-- As long as the transfer has not ended somebody can take a step towards the end. -/
theorem Inv.exists_progress (h : Inv q s) (hend : ¬ s.Ended) :
    ∃ e, (s.step q e).rank q < s.rank q := by
  cases h with
  | entering h =>
      refine ⟨.run true true, ?_⟩
      obtain ⟨lbo, count, first, r, hfirst, -⟩ := q.exists_first
      obtain ⟨lbo', count', last, hlast, -⟩ := exists_last q
      simp only [PagingIo.step, PagingIo.run, h.pc, PagingIo.enter, hfirst, hlast]
      split
      · simp only [rank, toGo, h.pc, PagingPc.rank, h.master, MasterState.rank]
        omega
      · simp only [rank, toGo, h.pc, PagingPc.rank, h.master]
        omega
  | passed h =>
      refine ⟨.master true, rank_masterDone_lt ?_⟩
      have hmaster := h.master
      have hnot : s.master ≠ .back := fun hb =>
        hend ⟨h.pc, by simp [h.assocs], Or.inr hb⟩
      cases hm : s.master <;> simp_all
  | looping h =>
      have hp := h.place
      unfold Place at hp
      cases hpc : s.pc with
      | enter => simp [hpc] at hp
      | allocate =>
          refine ⟨.run true true, ?_⟩
          simp only [PagingIo.step, PagingIo.run, hpc, PagingIo.allocate, rank, toGo, PagingPc.rank]
          simp
      | waitReserve =>
          simp only [hpc] at hp
          cases hr : s.reserve with
          | free =>
              refine ⟨.run true true, ?_⟩
              simp only [PagingIo.step, PagingIo.run, hpc, PagingIo.waitReserve, hr, rank, toGo,
                PagingPc.rank]
              simp
          | other =>
              refine ⟨.others, ?_⟩
              simp only [PagingIo.step, PagingIo.others, hr, rank, toGo]
              simp
          | mine => exact absurd hr hp.2.2.2.2.2
      | associate =>
          refine ⟨.run true true, ?_⟩
          simp only [PagingIo.step, PagingIo.run, hpc, PagingIo.associate]
          split
          · simp only [rank, toGo, hpc, PagingPc.rank, List.map_append, List.sum_append, List.map_cons,
              List.map_nil, List.sum_singleton, AssocState.rank]
            omega
          · simp only [rank, toGo, hpc, PagingPc.rank]
            omega
      | drain =>
          simp only [hpc] at hp
          by_cases hdrained : s.masterCount = s.irpCount
          · refine ⟨.run true true, ?_⟩
            simp only [PagingIo.step, PagingIo.run, hpc, PagingIo.drain, hdrained, ne_eq,
              not_true_eq_false, if_false]
            split
            · simp only [rank, toGo, hpc, PagingPc.rank]
              omega
            · simp only [rank, toGo, hpc, PagingPc.rank, hp.2.2.2.1, MasterState.rank]
              omega
          · obtain ⟨i, a, hi, ha⟩ := exists_not_done h.counts hdrained
            exact ⟨.assoc i true, rank_assoc_lt hi ha⟩
      | waitMaster =>
          simp only [hpc] at hp
          by_cases hback : s.master = .back
          · refine ⟨.run true true, ?_⟩
            simp only [PagingIo.step, PagingIo.run, hpc, PagingIo.waitMaster, hback]
            cases s.failed <;>
            · simp only [rank, toGo, hpc, PagingPc.rank, hback, MasterState.rank]
              simp
              try omega
          · refine ⟨.master true, rank_masterDone_lt ?_⟩
            have hidle := hp.2.2.2.1
            cases hm : s.master <;> simp_all
      | advance =>
          simp only [hpc] at hp
          have hpos := hp.2.1.pos
          have hle := hp.2.1.le
          refine ⟨.run true true, ?_⟩
          simp only [PagingIo.step, PagingIo.run, hpc, PagingIo.advance]
          split
          · simp only [rank, toGo, hpc, PagingPc.rank]
            omega
          split
          · simp only [rank, toGo, hpc, PagingPc.rank]
            omega
          · simp only [rank, toGo, hpc, PagingPc.rank]
            omega
      | finish =>
          by_cases hdrained : s.irpCount = 0 ∨ s.masterCount = s.irpCount
          · refine ⟨.run true true, ?_⟩
            have hrank : s.finish.rank q < s.rank q := by
              rw [PagingIo.finish]
              split
              · simp only [rank, toGo, hpc, PagingPc.rank]
                omega
              split
              · next hzero hne => exact absurd (hdrained.resolve_left hzero) hne
              · simp only [rank, toGo, hpc, PagingPc.rank]
                omega
            simpa only [PagingIo.step, PagingIo.run, hpc] using hrank
          · rw [not_or] at hdrained
            obtain ⟨i, a, hi, ha⟩ := exists_not_done h.counts hdrained.2
            exact ⟨.assoc i true, rank_assoc_lt hi ha⟩
      | returned =>
          simp only [hpc] at hp
          have hleft : ∃ a ∈ s.assocs, a ≠ .done := by
            by_contra hall
            refine hend ⟨hpc, fun a ha => ?_, Or.inl hp.1⟩
            by_contra hnot
            exact hall ⟨a, ha, hnot⟩
          obtain ⟨a, ha, hnot⟩ := hleft
          obtain ⟨i, hi⟩ := List.getElem?_of_mem ha
          exact ⟨.assoc i true, rank_assoc_lt hi hnot⟩

theorem Inv.exists_end (h : Inv q s) :
    ∃ s', Reach (PagingIo.step q) (fun _ _ => True) s s' ∧ Inv q s' ∧ s'.Ended := by
  induction hn : s.rank q using Nat.strong_induction_on generalizing s with
  | h n ih =>
      by_cases hend : s.Ended
      · exact ⟨s, .start, h, hend⟩
      · obtain ⟨e, hlt⟩ := h.exists_progress hend
        obtain ⟨s', hreach, hinv, hended⟩ := ih _ (hn ▸ hlt) (h.step e) rfl
        refine ⟨s', ?_, hinv, hended⟩
        -- the step is put in front of the rest
        have hfront : Reach (PagingIo.step q) (fun _ _ => True) s (s.step q e) := .next .start trivial
        exact hreach.invariant hfront fun _ _ hr _ => .next hr trivial

/-! ### Runs -/

theorem Inv.tiles (h : Inv q s) : ∃ stop ≤ q.stop, Tiles q.file q.vbo s.issued stop ∧
    (s.pc = .returned → stop = q.stop ∨ s.failed = true) := by
  have hpos := q.byteCount_pos
  have hstop : q.stop = q.vbo + q.byteCount := rfl
  cases h with
  | entering h =>
      refine ⟨q.vbo, by omega, ?_, by simp [h.pc]⟩
      rw [h.issued]
      rfl
  | passed h =>
      obtain ⟨lbo, hissued, hstretch⟩ := h.issued
      refine ⟨q.stop, le_rfl, ?_, fun _ => Or.inl rfl⟩
      rw [hissued]
      exact ⟨rfl, hpos, hstretch, rfl⟩
  | looping h =>
      have hp := h.place
      unfold Place at hp
      split at hp
      · exact hp.elim
      · next hpc => exact ⟨s.vbo, by have := hp.1.sum; omega, hp.1.tiles, by simp [hpc]⟩
      · next hpc => exact ⟨s.vbo, by have := hp.1.sum; omega, hp.1.tiles, by simp [hpc]⟩
      · next hpc => exact ⟨s.vbo, by have := hp.1.sum; omega, hp.1.tiles, by simp [hpc]⟩
      · next hpc => exact ⟨s.vbo, by have := hp.1.sum; omega, hp.1.tiles, by simp [hpc]⟩
      · next hpc =>
          refine ⟨s.vbo + s.nextByteCount, ?_, hp.1.tiles, by simp [hpc]⟩
          have := hp.1.sum
          have := hp.2.1.le
          omega
      · next hpc =>
          refine ⟨s.vbo + s.nextByteCount, ?_, hp.1.tiles, by simp [hpc]⟩
          have := hp.1.sum
          have := hp.2.1.le
          omega
      · obtain ⟨-, e, he, htiles, hor⟩ := hp
        exact ⟨e, he, htiles, fun _ => hor⟩
      · obtain ⟨-, e, he, htiles, hor⟩ := hp
        exact ⟨e, he, htiles, fun _ => hor⟩

theorem Inv.once (h : Inv q s) : s.completions ≤ 1 := by
  cases h with
  | entering h => simp [h.completions]
  | passed h =>
      rw [h.completions]
      split <;> omega
  | looping h =>
      by_cases hhand : s.pc = .returned ∧ s.irpCount ≠ 0
      · rw [(h.counts.byHand hhand.1 hhand.2).1]
      · rw [h.counts.bySystem (by tauto)]
        split <;> omega

/-- The place of the routine says where the master is. -/
theorem Looping.master_eq_idle (h : s.Looping q) (hzero : s.irpCount = 0 ∨ s.pc = .returned) :
    s.master = .idle := by
  have hp := h.place
  unfold Place at hp
  split at hp
  · exact hp.elim
  · exact hp.2.2.1
  · exact hp.2.2.2.1
  · exact hp.2.2.2.1
  · exact hp.2.2.2.1
  · next hpc =>
      -- an associated request is left while the master is used
      have henough : s.lastIndex + 1 ≤ s.irpCount + s.currentIndex := hp.2.2.1
      have := hp.1.index_le
      rcases hzero with hz | hr
      · omega
      · simp [hpc] at hr
  · exact hp.2.2.2.1
  · exact hp.1
  · exact hp.1

theorem Counts.all_done (h : s.Counts) (hle : s.masterCount ≤ s.irpCount) :
    ∀ a ∈ s.assocs, a = .done := by
  intro a ha
  obtain ⟨i, hi⟩ := List.getElem?_of_mem ha
  by_contra hnot
  have := h.lt_masterCount hi hnot
  omega

theorem Inv.landed (h : Inv q s) (hdone : s.completions = 1) : s.Landed := by
  cases h with
  | entering h => simp [h.completions] at hdone
  | passed h =>
      rw [h.completions] at hdone
      refine ⟨by simp [h.assocs], Or.inr ?_⟩
      by_contra hnot
      simp [hnot] at hdone
  | looping h =>
      by_cases hhand : s.pc = .returned ∧ s.irpCount ≠ 0
      · obtain ⟨-, heq⟩ := h.counts.byHand hhand.1 hhand.2
        exact ⟨h.counts.all_done heq.le, Or.inl (h.master_eq_idle (Or.inr hhand.1))⟩
      · have hsystem := h.counts.bySystem (by tauto)
        have hzero : s.masterCount = 0 := by
          by_contra hne
          rw [if_neg hne] at hsystem
          omega
        have hirp : s.irpCount = 0 := by
          have hsum := h.counts.sum
          have : s.assocs.count .done ≤ s.assocs.length := List.count_le_length
          omega
        exact ⟨h.counts.all_done (by omega), Or.inl (h.master_eq_idle (Or.inl hirp))⟩

theorem Inv.answered (h : Inv q s) (hend : s.Ended) : s.completions = 1 := by
  obtain ⟨hpc, hdone, hmaster⟩ := hend
  cases h with
  | entering h => simp [h.pc] at hpc
  | passed h =>
      rw [h.completions, if_pos (hmaster.resolve_left h.master)]
  | looping h =>
      by_cases hzero : s.irpCount = 0
      · have hcount : s.assocs.count .done = s.assocs.length :=
          List.count_eq_length.mpr fun a ha => (hdone a ha).symm
        have hsum := h.counts.sum
        rw [h.counts.bySystem (Or.inr hzero), if_pos (by omega)]
      · exact (h.counts.byHand hpc hzero).1

end PagingIo

/-- With the reserve in hand the routine does not find that one of the pieces on their way has
failed. -/
def Spared (s : PagingIo) : PagingEvent → Prop
  | .run _ _ => s.pc = .drain → s.mdlIsReserve = true → s.masterCount = s.irpCount → s.failed = false
  | _ => True

namespace PagingIo

variable {q : PagingRequest} {s : PagingIo}

/-- Behind the loop the reserve is not in hand. -/
def GivenBack (s : PagingIo) : Prop := s.pc = .finish ∨ s.pc = .returned → s.reserve ≠ .mine

theorem Inv.givenBack_run (h : Inv q s) (hgiven : s.GivenBack) {mdl irp : Bool}
    (hok : Spared s (.run mdl irp)) : (s.run q mdl irp).GivenBack := by
  intro hpc'
  cases h with
  | entering h =>
      rw [PagingIo.run, h.pc]
      dsimp only
      rw [PagingIo.enter]
      split
      · split <;> exact h.reserve
      · exact h.reserve
  | passed h =>
      rw [PagingIo.run, h.pc]
      exact h.reserve
  | looping h =>
      have hp := h.place
      unfold Place at hp
      rw [PagingIo.run] at hpc' ⊢
      cases hpc : s.pc with
      | enter => simp [hpc] at hp
      | allocate => cases mdl <;> simp [hpc, PagingIo.allocate] at hpc'
      | waitReserve =>
          simp only [hpc, PagingIo.waitReserve] at hpc'
          split at hpc' <;> simp [hpc] at hpc'
      | associate =>
          simp only [hpc, PagingIo.associate] at hpc'
          split at hpc' <;> simp at hpc'
      | drain =>
          simp only [hpc] at hp
          simp only [hpc, PagingIo.drain] at hpc' ⊢
          split
          · next hne =>
              rw [if_pos hne] at hpc'
              simp [hpc] at hpc'
          · next hdrained =>
              rw [if_neg hdrained] at hpc'
              split
              · next hfailed =>
                  intro hr
                  have := hok hpc (hp.2.2.2.2.2 hr) (by simpa using hdrained)
                  simp [hfailed] at this
              · next hfailed =>
                  rw [if_neg hfailed] at hpc'
                  simp at hpc'
      | waitMaster =>
          simp only [hpc] at hp
          simp only [hpc, PagingIo.waitMaster] at hpc' ⊢
          split
          · next hback =>
              intro hr
              have := (hp.2.2.2.2 hr).2
              simp [hback] at this
          · next hnot =>
              split at hpc'
              · next hback => exact absurd hback hnot
              · simp [hpc] at hpc'
      | advance =>
          simp only [hpc] at hp
          dsimp only
          rw [PagingIo.advance]
          split
          · exact hp.2.2.2.2.2
          split
          · exact hp.2.2.2.2.2
          · exact hp.2.2.2.2.2
      | finish =>
          dsimp only
          rw [PagingIo.finish]
          split
          · exact hgiven (Or.inl hpc)
          split
          · exact hgiven (Or.inl hpc)
          · exact hgiven (Or.inl hpc)
      | returned => exact hgiven (Or.inr hpc)

theorem Inv.givenBack_step (h : Inv q s) (hgiven : s.GivenBack) {e : PagingEvent}
    (hok : Spared s e) : (s.step q e).GivenBack := by
  cases e with
  | run mdl irp => exact h.givenBack_run hgiven hok
  | assoc i ok =>
      have hsame : (s.assoc i ok).pc = s.pc ∧ (s.assoc i ok).reserve = s.reserve := by
        rw [PagingIo.assoc]
        split
        · cases ok <;> exact ⟨rfl, rfl⟩
        · exact ⟨rfl, rfl⟩
        · exact ⟨rfl, rfl⟩
      rw [PagingIo.step, GivenBack, hsame.1, hsame.2]
      exact hgiven
  | master ok =>
      have hsame : (s.masterDone ok).pc = s.pc ∧
          ((s.masterDone ok).reserve = .mine → s.reserve = .mine) := by
        rw [PagingIo.masterDone]
        split
        · cases ok <;> cases hp : s.passed <;> cases hm : s.mdlIsReserve <;> simp
        · cases hp : s.passed <;> simp
        · exact ⟨rfl, id⟩
      rw [PagingIo.step, GivenBack, hsame.1]
      exact fun hpc hr => hgiven hpc (hsame.2 hr)
  | others =>
      rw [PagingIo.step, PagingIo.others]
      split
      · exact fun _ => by simp
      · exact fun _ => by simp
      · exact hgiven

end PagingIo

open PagingIo in
/-- Every run in which the routine, with the reserve in hand, does not find a failed piece: the
pieces tile the request, all of it unless a piece failed; the master is completed at most once and
only when no piece is on its way, and once when all is over; the reserve is given back.  From every
state of such a run the end can be reached. -/
theorem orderly_of_pagingReach {q : PagingRequest} {busy : Bool} {s : PagingIo}
    (h : Reach (PagingIo.step q) Spared (PagingIo.start busy) s) :
    s.Orderly q ∧ ∃ s', Reach (PagingIo.step q) (fun _ _ => True) s s' ∧ s'.Ended ∧
      s'.completions = 1 := by
  have hinv : Inv q s ∧ s.GivenBack := by
    refine h.invariant (P := fun s => Inv q s ∧ s.GivenBack) ⟨inv_start q busy, ?_⟩
      fun s e hs hok => ⟨hs.1.step e, hs.1.givenBack_step hs.2 hok⟩
    simp [GivenBack, start]
  obtain ⟨s', hreach, hinv', hend⟩ := hinv.1.exists_end
  exact ⟨⟨hinv.1.tiles, hinv.1.once, hinv.1.landed, hinv.1.answered, fun hpc => hinv.2 (Or.inr hpc)⟩,
    s', hreach, hend, hinv'.answered hend⟩

/-- A disk with sectors of 512 bytes and clusters of one sector. -/
def smallDisk : Geometry where
  width := .fat12
  numberOfClusters := 100
  fileAreaLbo := 4096
  logOfBytesPerSector := 9
  logOfBytesPerCluster := 9
  reservedBytes := 512
  sector_mem := by decide
  cluster_mem := by decide
  numberOfClusters_lt := by decide
  fat12_le := by decide
  fileAreaLbo_lt := by decide
  reserved_dvd := by decide

/-- A file of two runs of one sector each, and a transfer of both. -/
def twoSectors : PagingRequest where
  file :=
    { g := smallDisk
      mcb := [⟨some 20, 1⟩, ⟨some 30, 1⟩]
      count_pos := by simp
      mapped := by simp
      small := by decide }
  vbo := 0
  byteCount := 1024
  aligned := by decide
  byteCount_pos := by decide
  byteCount_lt := by decide
  inside := by decide

/-- The first piece is an associated request and the second one needs the reserve. -/
def lowMemory : List PagingEvent :=
  [.run true true, .run true true, .run true true, .run true true, .run false true, .run true true,
    .run true true, .assoc 0 true, .run true true, .master true, .run true true, .run true true,
    .run true true]

theorem orderly_lowMemory :
    (lowMemory.foldl (PagingIo.step twoSectors) (.start false)).Orderly twoSectors ∧
      (lowMemory.foldl (PagingIo.step twoSectors) (.start false)).Ended ∧
      (lowMemory.foldl (PagingIo.step twoSectors) (.start false)).issued =
        [⟨0, 10240, 512⟩, ⟨512, 15360, 512⟩] := by
  refine ⟨(orderly_of_pagingReach (Reach.start.foldl (s := PagingIo.start false) ?_)).1, ?_, by decide⟩
  · refine ⟨?_, ?_, ?_, ?_, ?_, ?_, ?_, trivial, ?_, trivial, ?_, ?_, ?_, trivial⟩
    all_goals
      intro hpc
      first
      | exact absurd hpc (by decide)
      | exact fun _ _ => by decide
  · exact ⟨by decide, by decide, by decide⟩

/-- The first piece fails while the routine waits for the reserve. -/
def failedDrain : List PagingEvent :=
  [.run true true, .run true true, .run true true, .run true true, .run false true, .run true true,
    .run true true, .assoc 0 false, .assoc 0 true, .run true true, .run true true]

/-- The routine returns with the reserve in hand. -/
theorem not_orderly_failedDrain :
    ∃ s, Reach (PagingIo.step twoSectors) (fun _ _ => True) (PagingIo.start false) s ∧
      s.Ended ∧ s.completions = 1 ∧ ¬ s.Orderly twoSectors := by
  refine ⟨failedDrain.foldl (PagingIo.step twoSectors) (PagingIo.start false),
    Reach.start.foldl ?_, ⟨by decide, by decide, by decide⟩, by decide, fun h => ?_⟩
  · simp [failedDrain, AllowedAll]
  · exact h.reserve (by decide) (by decide)

end KernelDrivers.Fat
