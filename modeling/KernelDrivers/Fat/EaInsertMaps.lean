import KernelDrivers.Fat.EaInsert
import KernelDrivers.Fat.Outcome

/-!
# Cuts and merges of an EA file

The EA file and the maps of its pieces are lists of clusters.  A cut takes a list apart and a merge
puts two together, in the maps and in the FAT.  What holds throughout is that these lists together
are the old clusters and the new ones, and that each of them is threaded through the FAT.

## Main definitions

* `Threads` — the entries of a list of clusters hold the numbers that follow.
* `Maps` — the maps of a call are those of some lists.
* `Kept` — the lists are threaded, and the rest of the volume is as it was.
* `At` — both.

## Main results

* `At.sat_split`, `At.sat_merge`, `At.sat_splitNew` — what a cut and a merge do.
-/

namespace KernelDrivers.Fat.AddEaSet

/-! ## Threads -/

/-- The entry of each cluster holds the number of the next one, and that of the last an end mark.
The numbers themselves may lie above the marks. -/
def Threads (w : FatWidth) (e : ℕ → ℕ) (cs : List ℕ) : Prop :=
  cs = [] ∨ ∃ v, linkOf w v = .last ∧ Leads (fun c => Link.next (e c)) cs (.next v)

section Threads

variable {w : FatWidth} {e e' : ℕ → ℕ} {as bs cs : List ℕ}

theorem Threads.congr (h : Threads w e cs) (heq : ∀ c ∈ cs, e' c = e c) : Threads w e' cs := by
  refine h.imp_right fun ⟨v, hv, hleads⟩ => ⟨v, hv, hleads.congr fun c hc => ?_⟩
  rw [heq c hc]

/-- An end mark cuts a thread. -/
theorem Threads.cut (h : Threads w e (as ++ bs)) (has : as ≠ []) (hbs : bs ≠ [])
    (hnodup : (as ++ bs).Nodup) :
    Threads w (entrySet w e (as.getLast has) fatClusterLast) as ∧
      Threads w (entrySet w e (as.getLast has) fatClusterLast) bs := by
  obtain ⟨v, hv, hleads⟩ := h.resolve_left fun hnil => has (List.append_eq_nil_iff.mp hnil).1
  obtain ⟨b, bs, rfl⟩ := List.exists_cons_of_ne_nil hbs
  obtain ⟨hfront, hback⟩ := (Leads.append_iff has).mp hleads
  rw [List.nodup_append'] at hnodup
  constructor
  · refine Or.inr ⟨_, linkOf_last w, hfront.retarget has hnodup.1 (fun c _ hc => ?_) ?_⟩
    · rw [entrySet, if_neg hc]
    · rw [entrySet, if_pos rfl]
  · refine Or.inr ⟨v, hv, hback.congr fun c hc => ?_⟩
    rw [entrySet, if_neg]
    intro heq
    exact hnodup.2.2 (heq ▸ List.getLast_mem has) hc

/-- A link joins two threads. -/
theorem Threads.join (ha : Threads w e as) (hb : Threads w e bs) (has : as ≠ []) (hbs : bs ≠ [])
    (hnodup : (as ++ bs).Nodup) (hlt : bs.head hbs < 2 ^ w.linkBits) :
    Threads w (entrySet w e (as.getLast has) (bs.head hbs)) (as ++ bs) := by
  obtain ⟨u, -, hfront⟩ := ha.resolve_left has
  obtain ⟨v, hv, hback⟩ := hb.resolve_left hbs
  obtain ⟨b, bs, rfl⟩ := List.exists_cons_of_ne_nil hbs
  rw [List.nodup_append'] at hnodup
  refine Or.inr ⟨v, hv, (Leads.append_iff has).mpr ⟨?_, ?_⟩⟩
  · refine hfront.retarget has hnodup.1 (fun c _ hc => ?_) ?_
    · rw [entrySet, if_neg hc]
    · rw [entrySet, if_pos rfl, Nat.mod_eq_of_lt hlt, List.head_cons]
  · refine hback.congr fun c hc => ?_
    rw [entrySet, if_neg]
    intro heq
    exact hnodup.2.2 (heq ▸ List.getLast_mem has) hc

/-- A chain is a thread. -/
theorem threads_of_leads (h : Leads (fun c => linkOf w (e c)) cs .last) : Threads w e cs := by
  induction cs with
  | nil => exact Or.inl rfl
  | cons c cs ih =>
      cases cs with
      | nil => exact Or.inr ⟨e c, h, rfl⟩
      | cons d cs =>
          obtain ⟨v, hv, hleads⟩ := (ih h.2).resolve_left (by simp)
          exact Or.inr ⟨v, hv, congrArg Link.next (entry_of_link_next h.1).2, hleads⟩

/-- A thread through clusters that were a chain is a chain. -/
theorem Threads.leads (h : Threads w e' cs) (hchain : Leads (fun c => linkOf w (e c)) cs .last) :
    Leads (fun c => linkOf w (e' c)) cs .last := by
  induction cs with
  | nil => exact hchain
  | cons c cs ih =>
      obtain ⟨v, hv, hleads⟩ := h.resolve_left (by simp)
      cases cs with
      | nil =>
          have hc : e' c = v := Link.next.inj hleads
          change linkOf w (e' c) = .last
          rw [hc, hv]
      | cons d cs =>
          have hc : e' c = d := Link.next.inj hleads.1
          have hlink : linkOf w (e c) = .next d := hchain.1
          refine ⟨?_, ih (Or.inr ⟨v, hv, hleads.2⟩) hchain.2⟩
          rw [(entry_of_link_next hlink).2] at hlink
          dsimp only
          rw [hc, hlink]

/-- Clusters that are chained together are a thread. -/
theorem threads_chainEntry (hnodup : cs.Nodup) (hlt : ∀ c ∈ cs, c < 2 ^ w.linkBits) :
    Threads w (chainEntry w e cs) cs := by
  induction cs with
  | nil => exact Or.inl rfl
  | cons c cs ih =>
      cases cs with
      | nil =>
          refine Or.inr ⟨_, linkOf_last w, ?_⟩
          change Link.next (chainEntry w e [c] c) = _
          rw [chainEntry, if_pos rfl]
      | cons d cs =>
          rw [List.nodup_cons] at hnodup
          obtain ⟨v, hv, hleads⟩ :=
            (ih hnodup.2 fun x hx => hlt x (List.mem_cons_of_mem _ hx)).resolve_left (by simp)
          refine Or.inr ⟨v, hv, ?_, hleads.congr fun x hx => ?_⟩
          · dsimp only
            rw [chainEntry, if_pos rfl, Nat.mod_eq_of_lt (hlt d (by simp))]
          · have hxc : x ≠ c := fun heq => hnodup.1 (heq ▸ hx)
            rw [chainEntry, if_neg hxc]

end Threads

/-! ## The lists of a call -/

/-- All clusters of the file and of its pieces. -/
def together (xs : List ℕ) (of : Piece → List ℕ) : List ℕ :=
  xs ++ (of .eaSet ++ (of .eaOffset ++ (of .eaInitialEa ++ of .eaTail)))

section Lists

variable {xs as bs : List ℕ} {of : Piece → List ℕ} {p : Piece}

theorem together_cut (hp : of p = []) :
    (together as (Function.update of p bs)).Perm (together (as ++ bs) of) := by
  rw [List.perm_iff_count]
  intro a
  cases p <;> simp [together, List.count_append, hp] <;> omega

theorem together_join :
    (together (xs ++ of p) (Function.update of p [])).Perm (together xs of) := by
  rw [List.perm_iff_count]
  intro a
  cases p <;> simp [together, List.count_append] <;> omega

theorem mem_together_piece {x : ℕ} (h : x ∈ of p) : x ∈ together xs of := by
  cases p <;> simp [together, h]

theorem mem_together_file {x : ℕ} (h : x ∈ xs) : x ∈ together xs of := List.mem_append_left _ h

/-- The clusters of a piece are not those of the file. -/
theorem ne_of_mem_together (hnodup : (together xs of).Nodup) {x y : ℕ} (hx : x ∈ xs)
    (hy : y ∈ of p) : y ≠ x := by
  rw [together, List.nodup_append'] at hnodup
  have hmem : y ∈ of .eaSet ++ (of .eaOffset ++ (of .eaInitialEa ++ of .eaTail)) := by
    cases p <;> simp [hy]
  exact fun heq => hnodup.2.2 hx (heq ▸ hmem)

end Lists

/-- The maps of a call are those of lists of clusters.  A map whose list is empty may hold
anything. -/
structure Maps (g : Geometry) (c : Call) (xs : List ℕ) (of : Piece → List ℕ) : Prop where
  file : c.file.mcb = mcbOf g xs
  piece : ∀ p, of p ≠ [] → c.mcb p = mcbOf g (of p)
  clusters : ∀ x ∈ together xs of, x ∈ g.clusters
  room : (together xs of).length * g.clusterSize ≤ 2 ^ 32

namespace Maps

variable {g : Geometry} {c : Call} {xs as bs : List ℕ} {of : Piece → List ℕ} {p : Piece}

/-- The maps after a cut or a merge. -/
theorem setPair (h : Maps g c xs of) {ys zs : List ℕ} {r : McbPair}
    (hperm : (together ys (Function.update of p zs)).Perm (together xs of))
    (hmcb : r.mcb = mcbOf g ys) (hother : zs ≠ [] → r.other = mcbOf g zs) :
    Maps g (c.setPair p r) ys (Function.update of p zs) := by
  refine ⟨hmcb, fun p' hp' => ?_, fun x hx => h.clusters x (hperm.mem_iff.mp hx), ?_⟩
  · change Function.update c.mcb p r.other p' = _
    by_cases heq : p' = p
    · subst heq
      rw [Function.update_self] at hp' ⊢
      rw [Function.update_self]
      exact hother hp'
    · rw [Function.update_of_ne heq] at hp' ⊢
      rw [Function.update_of_ne heq]
      exact h.piece p' hp'
  · rw [hperm.length_eq]
    exact h.room

theorem setVcb (h : Maps g c xs of) (v : Vcb) : Maps g (c.setVcb v) xs of :=
  ⟨h.file, h.piece, h.clusters, h.room⟩

variable (hg : g.Sound)

include hg

/-- The file is cut. -/
theorem sat_split (h : Maps g c (as ++ bs) of) (hp : c.mcb p = []) (has : as ≠ []) (hbs : bs ≠ []) :
    Sat (onPart (Call.pair p) (Call.setPair p) (fatSplitAllocation g (as.length * g.clusterSize))) c
      (fun _ c' => ∃ vol, c' = c.setPair p ⟨{ c.file.vcb with vol := vol }, mcbOf g as, mcbOf g bs⟩ ∧
        c.file.vcb.vol.Wrote vol g.width (entrySet g.width (lookupEntry g.width c.file.vcb.vol.fat)
          (as.getLast has) fatClusterLast) ∧ c.file.vcb.vol.io ≠ some 0)
      (fun stop c' => stop = .raised .deviceError ∧ c.file.vcb.vol.io = some 0 ∧
        ∃ vol, c' = c.setPair p ⟨{ c.file.vcb with vol := vol }, mcbOf g (as ++ bs), []⟩ ∧
          c.file.vcb.vol.Faulted vol g.width) := by
  have hclusters : ∀ x ∈ as ++ bs, x ∈ g.clusters := fun x hx =>
    h.clusters x (mem_together_file hx)
  have hlen : (as ++ bs).length * g.clusterSize ≤ 2 ^ 32 := by
    refine (Nat.mul_le_mul_right _ ?_).trans h.room
    rw [together, @List.length_append _ (as ++ bs)]
    omega
  have hpos := List.length_pos_of_ne_nil has
  have hlt : as.length < (as ++ bs).length := by
    have := List.length_pos_of_ne_nil hbs
    rw [List.length_append]
    omega
  have hsat := sat_fatSplitAllocation (plain_mcbOf hg.sectors hclusters) hlen hpos hlt hg.aligned
    hclusters (v := c.file.vcb)
  have hlast : (as ++ bs)[as.length - 1] = as.getLast has := by
    rw [List.getElem_append_left (by omega), List.getLast_eq_getElem]
  rw [hlast, List.take_left' rfl, List.drop_left' rfl] at hsat
  apply Sat.onPart
  rw [Call.pair, h.file, hp]
  refine hsat.mono ?_ ?_
  · rintro _ r ⟨vol, hr, hwrote, hio, _⟩
    exact ⟨vol, by rw [hr], hwrote, hio⟩
  · rintro stop r ⟨hs, hio, vol, hr, hfault⟩
    exact ⟨hs, hio, vol, by rw [hr], hfault⟩

/-- A piece is merged into the file. -/
theorem sat_merge (h : Maps g c xs of) (hxs : xs ≠ []) (hp : of p ≠ []) :
    Sat (onPart (Call.pair p) (Call.setPair p) (fatMergeAllocation g)) c
      (fun _ c' => ∃ vol, c' = c.setPair p
          ⟨{ c.file.vcb with vol := vol }, mcbOf g (xs ++ of p), mcbOf g (of p)⟩ ∧
        c.file.vcb.vol.Wrote vol g.width (entrySet g.width (lookupEntry g.width c.file.vcb.vol.fat)
          (xs.getLast hxs) ((of p).head hp)) ∧ c.file.vcb.vol.io ≠ some 0)
      (fun stop c' => stop = .raised .deviceError ∧ c.file.vcb.vol.io = some 0 ∧
        ∃ vol, c' = c.setPair p ⟨{ c.file.vcb with vol := vol }, mcbOf g xs, mcbOf g (of p)⟩ ∧
          c.file.vcb.vol.Faulted vol g.width) := by
  have hfile : ∀ x ∈ xs, x ∈ g.clusters := fun x hx => h.clusters x (mem_together_file hx)
  have hpiece : ∀ x ∈ of p, x ∈ g.clusters := fun x hx => h.clusters x (mem_together_piece hx)
  have hlen : (xs.length + (of p).length) * g.clusterSize ≤ 2 ^ 32 := by
    refine (Nat.mul_le_mul_right _ ?_).trans h.room
    cases p <;> simp only [together, List.length_append] <;> omega
  have hplain : Plain (Runs.cells (mcbOf g (xs ++ of p))) := plain_mcbOf hg.sectors fun x hx =>
    (List.mem_append.mp hx).elim (hfile x) (hpiece x)
  apply Sat.onPart
  rw [Call.pair, h.file, h.piece p hp]
  refine (sat_fatMergeAllocation hg.aligned hplain hfile hpiece hxs hp hlen).mono ?_ ?_
  · rintro _ r ⟨vol, hr, hwrote, hio⟩
    exact ⟨vol, by rw [hr], hwrote, hio⟩
  · rintro stop r ⟨hs, hio, vol, hr, hfault⟩
    exact ⟨hs, hio, vol, by rw [hr], hfault⟩

end Maps

/-! ## What is kept -/

/-- The lists are the old and the new clusters, each is threaded through the FAT, and nothing else
was touched. -/
structure Kept (g : Geometry) (f : EaFcb) (cs ns : List ℕ) (v : Vcb) (xs : List ℕ)
    (of : Piece → List ℕ) : Prop where
  perm : (together xs of).Perm (cs ++ ns)
  threads : Threads g.width (lookupEntry g.width v.vol.fat) xs
  pieceThreads : ∀ p, Threads g.width (lookupEntry g.width v.vol.fat) (of p)
  entry : ∀ c, c ∉ cs → c ∉ ns → lookupEntry g.width v.vol.fat c = lookupEntry g.width f.vcb.vol.fat c
  books : Books g v (zeroSet g f.vcb.vol.fat \ ns.toFinset) 0

namespace Kept

variable {g : Geometry} {f : EaFcb} {cs ns xs as bs : List ℕ} {v : Vcb} {of : Piece → List ℕ}
  {p : Piece} {vol : Volume} {e : ℕ}

/-- Another volume with the same entries. -/
theorem congr (h : Kept g f cs ns v xs of)
    (hentry : ∀ j, lookupEntry g.width vol.fat j = lookupEntry g.width v.vol.fat j) :
    Kept g f cs ns { v with vol := vol } xs of where
  perm := h.perm
  threads := h.threads.congr fun c _ => hentry c
  pieceThreads := fun p => (h.pieceThreads p).congr fun c _ => hentry c
  entry := fun c hcs hns => (hentry c).trans (h.entry c hcs hns)
  books := h.books.setVol vol

theorem nodup (h : Kept g f cs ns v xs of) (hnodup : (cs ++ ns).Nodup) : (together xs of).Nodup :=
  h.perm.nodup_iff.mpr hnodup

/-- The file is cut. -/
theorem cut (h : Kept g f cs ns v (as ++ bs) of) (hnodup : (cs ++ ns).Nodup) (hp : of p = [])
    (has : as ≠ []) (hbs : bs ≠ []) (hwrote : v.vol.Wrote vol g.width
      (entrySet g.width (lookupEntry g.width v.vol.fat) (as.getLast has) fatClusterLast)) :
    Kept g f cs ns { v with vol := vol } as (Function.update of p bs) := by
  have hall := h.nodup hnodup
  have hfile : (as ++ bs).Nodup := hall.sublist (List.sublist_append_left _ _)
  have hmem : as.getLast has ∈ as ++ bs := List.mem_append_left _ (List.getLast_mem has)
  obtain ⟨hfront, hback⟩ := h.threads.cut has hbs hfile
  refine ⟨(together_cut hp).trans h.perm, hfront.congr fun c _ => hwrote.entry c, ?_, ?_,
    h.books.setVol vol⟩
  · intro p'
    by_cases heq : p' = p
    · rw [heq, Function.update_self]
      exact hback.congr fun c _ => hwrote.entry c
    · rw [Function.update_of_ne heq]
      refine (h.pieceThreads p').congr fun c hc => ?_
      rw [hwrote.entry, entrySet, if_neg (ne_of_mem_together hall hmem hc)]
  · intro c hcs hns
    have hin := h.perm.mem_iff.mp (mem_together_file hmem)
    rw [hwrote.entry, entrySet, if_neg, h.entry c hcs hns]
    rintro rfl
    exact (List.mem_append.mp hin).elim hcs hns

/-- A piece is merged into the file. -/
theorem join (h : Kept g f cs ns v xs of) (hnodup : (cs ++ ns).Nodup)
    (hclusters : ∀ x ∈ cs ++ ns, x < 2 ^ g.width.linkBits) (hxs : xs ≠ []) (hp : of p ≠ [])
    (hwrote : v.vol.Wrote vol g.width
      (entrySet g.width (lookupEntry g.width v.vol.fat) (xs.getLast hxs) ((of p).head hp))) :
    Kept g f cs ns { v with vol := vol } (xs ++ of p) (Function.update of p []) := by
  have hall := h.nodup hnodup
  have hmem := List.getLast_mem hxs
  have hperm : (together (xs ++ of p) (Function.update of p [])).Perm (cs ++ ns) :=
    together_join.trans h.perm
  have hfile : (xs ++ of p).Nodup :=
    (hperm.nodup_iff.mpr hnodup).sublist (List.sublist_append_left _ _)
  have hlt : (of p).head hp < 2 ^ g.width.linkBits :=
    hclusters _ (h.perm.mem_iff.mp (mem_together_piece (List.head_mem hp)))
  refine ⟨hperm, (h.threads.join (h.pieceThreads p) hxs hp hfile hlt).congr fun c _ => hwrote.entry c,
    ?_, ?_, h.books.setVol vol⟩
  · intro p'
    by_cases heq : p' = p
    · rw [heq, Function.update_self]
      exact Or.inl rfl
    · rw [Function.update_of_ne heq]
      refine (h.pieceThreads p').congr fun c hc => ?_
      rw [hwrote.entry, entrySet, if_neg (ne_of_mem_together hall hmem hc)]
  · intro c hcs hns
    have hin := h.perm.mem_iff.mp (mem_together_file hmem)
    rw [hwrote.entry, entrySet, if_neg, h.entry c hcs hns]
    rintro rfl
    exact (List.mem_append.mp hin).elim hcs hns

/-- The new allocation is cut. -/
theorem cutNew (h : Kept g f cs ns v xs of) (hnodup : (cs ++ ns).Nodup) (hset : of .eaSet = as ++ bs)
    (hoffset : of .eaOffset = []) (has : as ≠ []) (hbs : bs ≠ []) (hwrote : v.vol.Wrote vol g.width
      (entrySet g.width (lookupEntry g.width v.vol.fat) (as.getLast has) fatClusterLast)) :
    Kept g f cs ns { v with vol := vol } xs
      (Function.update (Function.update of .eaSet as) .eaOffset bs) := by
  have hall := h.nodup hnodup
  have hmem : as.getLast has ∈ of .eaSet := by
    rw [hset]
    exact List.mem_append_left _ (List.getLast_mem has)
  have hthread := h.pieceThreads .eaSet
  rw [hset] at hthread
  have hother : ∀ p, p ≠ .eaSet → ∀ c ∈ of p, c ≠ as.getLast has := by
    intro p hp c hc heq
    rw [heq] at hc
    rw [together, List.nodup_append', List.nodup_append', List.nodup_append', List.nodup_append'] at hall
    obtain ⟨-, ⟨-, ⟨-, -, -⟩, hdis⟩, -⟩ := hall
    cases p with
    | eaSet => exact hp rfl
    | eaOffset => exact hdis hmem (by simp [hc])
    | eaInitialEa => exact hdis hmem (by simp [hc])
    | eaTail => exact hdis hmem (by simp [hc])
  obtain ⟨hfront, hback⟩ := hthread.cut has hbs (by
    rw [← hset]
    exact ((List.sublist_append_left _ _).trans (List.sublist_append_right _ _)).nodup hall)
  refine ⟨?_, h.threads.congr fun c hc => ?_, fun p => ?_, fun c hcs hns => ?_, h.books.setVol vol⟩
  · refine List.Perm.trans ?_ h.perm
    simp [together, hset, hoffset]
  · rw [hwrote.entry, entrySet, if_neg (ne_of_mem_together hall hc hmem).symm]
  · cases p with
    | eaSet => exact hfront.congr fun c _ => hwrote.entry c
    | eaOffset => exact hback.congr fun c _ => hwrote.entry c
    | eaInitialEa =>
        refine (h.pieceThreads .eaInitialEa).congr fun c hc => ?_
        rw [hwrote.entry, entrySet, if_neg (hother .eaInitialEa (by simp) c hc)]
    | eaTail =>
        refine (h.pieceThreads .eaTail).congr fun c hc => ?_
        rw [hwrote.entry, entrySet, if_neg (hother .eaTail (by simp) c hc)]
  · have hin := h.perm.mem_iff.mp (mem_together_piece hmem)
    rw [hwrote.entry, entrySet, if_neg, h.entry c hcs hns]
    rintro rfl
    exact (List.mem_append.mp hin).elim hcs hns

end Kept

/-! ## One step -/

/-- A call whose maps are those of the old and the new clusters. -/
structure At (g : Geometry) (f : EaFcb) (cs ns : List ℕ) (c : Call) (xs : List ℕ)
    (of : Piece → List ℕ) : Prop extends Maps g c xs of, Kept g f cs ns c.file.vcb xs of

namespace At

variable {g : Geometry} {f : EaFcb} {cs ns xs as bs : List ℕ} {c : Call} {of : Piece → List ℕ}
  {p : Piece} (hg : g.Sound) (hnodup : (cs ++ ns).Nodup)

/-- Maps whose list is empty do not count. -/
theorem congr {c' : Call} (h : At g f cs ns c xs of) (hfile : c'.file = c.file)
    (hmcb : ∀ p, of p ≠ [] → c'.mcb p = c.mcb p) : At g f cs ns c' xs of := by
  refine ⟨⟨?_, fun p hp => (hmcb p hp).trans (h.piece p hp), h.clusters, h.room⟩, ?_⟩
  · rw [hfile]
    exact h.file
  · rw [hfile]
    exact h.toKept

theorem setFault (h : At g f cs ns c xs of) (io : Option ℕ) :
    At g f cs ns (c.setVcb (c.file.vcb.withFault io)) xs of :=
  ⟨h.toMaps.setVcb _, h.toKept.congr fun _ => rfl⟩

include hg hnodup

theorem sat_split (h : At g f cs ns c (as ++ bs) of) (hof : of p = []) (hp : c.mcb p = [])
    (has : as ≠ []) (hbs : bs ≠ []) :
    Sat (onPart (Call.pair p) (Call.setPair p) (fatSplitAllocation g (as.length * g.clusterSize))) c
      (fun _ c' => c.file.vcb.vol.io ≠ some 0 ∧ At g f cs ns c' as (Function.update of p bs) ∧
        (c.file.vcb.vol.io = none → c'.file.vcb.vol.io = none) ∧ ∃ r, c' = c.setPair p r)
      (fun _ c' => c.file.vcb.vol.io = some 0 ∧ At g f cs ns c' (as ++ bs) of ∧
        c'.file.vcb.vol.io = none ∧ ∃ r, c' = c.setPair p r) := by
  have hsame : Function.update of p [] = of := by rw [← hof, Function.update_eq_self]
  refine (h.toMaps.sat_split hg hp has hbs).mono ?_ ?_
  · rintro _ c' ⟨vol, hc', hwrote, hio⟩
    subst hc'
    exact ⟨hio, ⟨h.toMaps.setPair (together_cut hof) rfl fun _ => rfl,
      h.toKept.cut hnodup hof has hbs hwrote⟩, hwrote.io, _, rfl⟩
  · rintro _ c' ⟨_, hio, vol, hc', hfault⟩
    subst hc'
    have hmaps : Maps g (c.setPair p ⟨{ c.file.vcb with vol := vol }, mcbOf g (as ++ bs), []⟩) (as ++ bs)
        (Function.update of p []) :=
      h.toMaps.setPair (by rw [hsame]) rfl fun hne => absurd rfl hne
    rw [hsame] at hmaps
    exact ⟨hio, ⟨hmaps, h.toKept.congr hfault.entry⟩, hfault.io', _, rfl⟩

theorem sat_merge (h : At g f cs ns c xs of) (hxs : xs ≠ []) (hp : of p ≠ []) :
    Sat (onPart (Call.pair p) (Call.setPair p) (fatMergeAllocation g)) c
      (fun _ c' => c.file.vcb.vol.io ≠ some 0 ∧
        At g f cs ns c' (xs ++ of p) (Function.update of p []) ∧
        (c.file.vcb.vol.io = none → c'.file.vcb.vol.io = none) ∧ ∃ r, c' = c.setPair p r)
      (fun _ c' => c.file.vcb.vol.io = some 0 ∧ At g f cs ns c' xs of ∧
        c'.file.vcb.vol.io = none ∧ ∃ r, c' = c.setPair p r) := by
  have hsame : Function.update of p (of p) = of := Function.update_eq_self p of
  have hlinks : ∀ x ∈ cs ++ ns, x < 2 ^ g.width.linkBits := by
    intro x hx
    have hmem := Geometry.mem_clusters.mp (h.clusters x (h.perm.mem_iff.mpr hx))
    have := hg.links
    omega
  refine (h.toMaps.sat_merge hg hxs hp).mono ?_ ?_
  · rintro _ c' ⟨vol, hc', hwrote, hio⟩
    subst hc'
    exact ⟨hio, ⟨h.toMaps.setPair together_join rfl fun hne => absurd rfl hne,
      h.toKept.join hnodup hlinks hxs hp hwrote⟩, hwrote.io, _, rfl⟩
  · rintro _ c' ⟨_, hio, vol, hc', hfault⟩
    subst hc'
    have hmaps : Maps g (c.setPair p ⟨{ c.file.vcb with vol := vol }, mcbOf g xs, mcbOf g (of p)⟩) xs
        (Function.update of p (of p)) :=
      h.toMaps.setPair (by rw [hsame]) rfl fun _ => rfl
    rw [hsame] at hmaps
    exact ⟨hio, ⟨hmaps, h.toKept.congr hfault.entry⟩, hfault.io', _, rfl⟩

/-- The new allocation is cut. -/
theorem sat_splitNew (h : At g f cs ns c xs of) (hset : of .eaSet = as ++ bs)
    (hoffset : of .eaOffset = []) (hp : c.mcb .eaOffset = []) (has : as ≠ []) (hbs : bs ≠ []) :
    Sat (onPart Call.newPair Call.setNewPair (fatSplitAllocation g (as.length * g.clusterSize))) c
      (fun _ c' => c.file.vcb.vol.io ≠ some 0 ∧
        At g f cs ns c' xs (Function.update (Function.update of .eaSet as) .eaOffset bs) ∧
        (c.file.vcb.vol.io = none → c'.file.vcb.vol.io = none) ∧ ∃ r, c' = c.setNewPair r)
      (fun _ c' => c.file.vcb.vol.io = some 0 ∧ At g f cs ns c' xs of ∧
        c'.file.vcb.vol.io = none ∧ ∃ r, c' = c.setNewPair r) := by
  have hne : of .eaSet ≠ [] := by simp [hset, has]
  have hclusters : ∀ x ∈ as ++ bs, x ∈ g.clusters := fun x hx =>
    h.clusters x (mem_together_piece (p := .eaSet) (by rwa [hset]))
  have hlen : (as ++ bs).length * g.clusterSize ≤ 2 ^ 32 := by
    refine (Nat.mul_le_mul_right _ ?_).trans h.room
    rw [together, ← hset, List.length_append, List.length_append]
    omega
  have hpos := List.length_pos_of_ne_nil has
  have hlt : as.length < (as ++ bs).length := by
    have := List.length_pos_of_ne_nil hbs
    rw [List.length_append]
    omega
  have hsat := sat_fatSplitAllocation (plain_mcbOf hg.sectors hclusters) hlen hpos hlt hg.aligned
    hclusters (v := c.file.vcb)
  have hlast : (as ++ bs)[as.length - 1] = as.getLast has := by
    rw [List.getElem_append_left (by omega), List.getLast_eq_getElem]
  rw [hlast, List.take_left' rfl, List.drop_left' rfl] at hsat
  apply Sat.onPart
  rw [Call.newPair, h.piece .eaSet hne, hset, hp]
  refine hsat.mono ?_ ?_
  · rintro _ r ⟨vol, hr, hwrote, hio, _⟩
    subst hr
    have hkept := h.toKept.cutNew hnodup hset hoffset has hbs hwrote
    have hperm := hkept.perm.trans h.perm.symm
    refine ⟨hio, ⟨⟨h.file, fun p hp => ?_, fun x hx => h.clusters x (hperm.mem_iff.mp hx), ?_⟩, hkept⟩,
      hwrote.io, _, rfl⟩
    · cases p with
      | eaSet => rfl
      | eaOffset => rfl
      | eaInitialEa => exact h.piece .eaInitialEa hp
      | eaTail => exact h.piece .eaTail hp
    · rw [hperm.length_eq]
      exact h.room
  · rintro _ r ⟨_, hio, vol, hr, hfault⟩
    subst hr
    refine ⟨hio, ⟨⟨h.file, fun p hp => ?_, h.clusters, h.room⟩, h.toKept.congr hfault.entry⟩,
      hfault.io', _, rfl⟩
    cases p with
    | eaSet => exact (congrArg (mcbOf g) hset).symm
    | eaOffset => exact absurd hoffset hp
    | eaInitialEa => exact h.piece .eaInitialEa hp
    | eaTail => exact h.piece .eaTail hp

end At

end KernelDrivers.Fat.AddEaSet
