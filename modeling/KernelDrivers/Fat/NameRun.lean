import KernelDrivers.Fat.NameTree

/-!
# Runs of the name trees

Every sequence of `FatConstructNamesInFcb`, `FatRemoveNames` and `FatFindFcb` on the files
of one directory, between which the rest of the driver may change the condition and the
other flags of any file.  The trees stay search trees and lookups are exact; a file in
normal state loses its names exactly when a name that it has is entered.

## Main definitions

* `Indexed d` — the trees hold the names that the files tell.
* `NameRun` — a run of the operations, with its history.
* `NameEvent.OnlyStaleEvicted`, `NameEvent.NoGoodInTheWay`.
-/

namespace KernelDrivers.Fat

/-- The long name that goes to the Unicode tree. -/
def NewNames.unicodeLong (monocase : UInt16 → UInt16) (n : NewNames) : Option Name :=
  if h : n.lfn = [] then none
  else if n.lfn.all (· < 0x80) then none
  else some (unicodeName monocase n.lfn h)

/-- The flags about names tell one story. -/
def FlagsSound (d : NameDcb) (f : ℕ) : Prop :=
  (d.on f .hasOemLongName ∨ d.on f .hasUnicodeLongName → d.on f .namesInSplayTree) ∧
    ¬ (d.on f .hasOemLongName ∧ d.on f .hasUnicodeLongName)

/-- The trees hold the names that the files tell. -/
structure Indexed (d : NameDcb) : Prop where
  listed : Listed d fun _ => ∅
  flags : ∀ f, FlagsSound d f

theorem Indexed.mem {d : NameDcb} (h : Indexed d) {t : NameTree} {n : FileNameNode} :
    n ∈ inorder (d.root t) ↔ n ∈ d.nodes t := by
  rw [h.listed.mem]
  exact or_iff_left (Set.notMem_empty n)

/-- The trees are as before, and file `f` has the short name. -/
structure Renamed (f : ℕ) (n : NewNames) (d d' : NameDcb) : Prop where
  other : ∀ g, g ≠ f → d'.fcbs g = d.fcbs g
  tree : ∀ t, inorder (d'.root t) = inorder (d.root t)
  named : d'.on f .namesInSplayTree = d.on f .namesInSplayTree
  short : (d'.fcbs f).shortName = some n.shortName
  condition : (d'.fcbs f).fcbCondition = (d.fcbs f).fcbCondition

/-- What the long name of file `f` is. -/
inductive LongName (monocase : UInt16 → UInt16) (f : ℕ) (n : NewNames) (d : NameDcb) : Prop
  | none : d.on f .hasOemLongName = false → d.on f .hasUnicodeLongName = false →
      n.unicodeLong monocase = none → LongName monocase f n d
  | oem (name : Name) : d.on f .hasOemLongName → d.on f .hasUnicodeLongName = false →
      n.unicodeLong monocase = Option.none → (d.fcbs f).longName = some name → name ≠ n.shortName →
      (∀ x ∈ inorder (d.root .oem), x.name ≠ name) → LongName monocase f n d
  | unicode (name : Name) : d.on f .hasOemLongName = false → d.on f .hasUnicodeLongName →
      n.unicodeLong monocase = some name → (d.fcbs f).longName = some name → LongName monocase f n d

section Build

variable (rtl : SplayLinks FileNameNode) {monocase : UInt16 → UInt16} {d : NameDcb} {f : ℕ}
  {n : NewNames}

theorem flagOn_setFlagTo (state : BitVec 32) (flag flag' : FcbFlag) (b : Bool) (hne : flag ≠ flag') :
    flagOn (setFlagTo state flag b) flag' = flagOn state flag' := by
  cases b <;> simp [setFlagTo, hne]

/-- A lookup leaves the sequence of the tree. -/
theorem inorder_root_fatFindFcb (hsearch : ∀ t, IsSearchTree FileNameNode.name (d.root t))
    (t t' : NameTree) (name : Name) :
    inorder ((fatFindFcb rtl t name d).2.root t') = inorder (d.root t') := by
  rw [fatFindFcb]
  cases hwalk : walk (fun node => compareNames node.name name) (d.root t) with
  | none => rfl
  | some node =>
      have hmem := (((hsearch t).walk_eq_some_iff
        (c := fun node => compareNames node.name name)
        fun a => compareNames_compares a.name name).mp hwalk).1
      by_cases ht : t = t'
      · subst ht
        rw [NameDcb.root_setRoot_self, rtl.inorder_splay hmem]
      · rw [NameDcb.root_setRoot_of_ne _ ht]

theorem fcbs_fatFindFcb (t : NameTree) (name : Name) : (fatFindFcb rtl t name d).2.fcbs = d.fcbs := by
  rw [fatFindFcb]
  split
  · exact NameDcb.fcbs_setRoot _ _ _
  · rfl

/-- **A lookup** finds the node with the name. -/
theorem fatFindFcb_eq_some_iff {t : NameTree} (hsearch : IsSearchTree FileNameNode.name (d.root t))
    (name : Name) (node : FileNameNode) :
    (fatFindFcb rtl t name d).1 = some node ↔ node ∈ inorder (d.root t) ∧ node.name = name := by
  rw [← hsearch.walk_eq_some_iff (c := fun node => compareNames node.name name)
    fun a => compareNames_compares a.name name, fatFindFcb]
  split
  · next heq => rw [heq]
  · next heq => rw [heq]

theorem on_clearLongName (flag : FcbFlag) : (clearLongName f d).on f flag = d.on f flag := by
  rw [clearLongName, NameDcb.on, NameDcb.fcbs_updateFcb_self, NameDcb.on]

theorem on_setLongName (name : Name) (flag flag' : FcbFlag) :
    (setLongName f name flag d).on f flag' = (decide (flag = flag') || d.on f flag') := by
  rw [setLongName, NameDcb.on, NameDcb.fcbs_updateFcb_self, flagOn_setFlag, NameDcb.on]

theorem longName_setLongName (name : Name) (flag : FcbFlag) :
    ((setLongName f name flag d).fcbs f).longName = some name := by
  rw [setLongName, NameDcb.fcbs_updateFcb_self]

theorem renamed_setShortName : Renamed f n d (setShortName f n d) := by
  refine ⟨fun g hg => ?_, fun t => ?_, ?_, ?_, ?_⟩
  · rw [setShortName, NameDcb.fcbs_updateFcb_of_ne _ hg]
  · rw [setShortName, NameDcb.root_updateFcb]
  · rw [setShortName, NameDcb.on, NameDcb.fcbs_updateFcb_self, flagOn_setFlagTo _ _ _ _ (by simp),
      flagOn_setFlagTo _ _ _ _ (by simp), NameDcb.on]
  · rw [setShortName, NameDcb.fcbs_updateFcb_self]
  · rw [setShortName, NameDcb.fcbs_updateFcb_self]

namespace Renamed

variable {d' : NameDcb} (h : Renamed f n d d')

include h

theorem clearLongName : Renamed f n d (clearLongName f d') := by
  refine ⟨fun g hg => ?_, fun t => ?_, ?_, ?_, ?_⟩
  · rw [Fat.clearLongName, NameDcb.fcbs_updateFcb_of_ne _ hg, h.other g hg]
  · rw [Fat.clearLongName, NameDcb.root_updateFcb, h.tree]
  · rw [on_clearLongName, h.named]
  · rw [Fat.clearLongName, NameDcb.fcbs_updateFcb_self, h.short]
  · rw [Fat.clearLongName, NameDcb.fcbs_updateFcb_self, h.condition]

theorem setLongName (name : Name) {flag : FcbFlag} (hflag : flag ≠ .namesInSplayTree) :
    Renamed f n d (setLongName f name flag d') := by
  refine ⟨fun g hg => ?_, fun t => ?_, ?_, ?_, ?_⟩
  · rw [Fat.setLongName, NameDcb.fcbs_updateFcb_of_ne _ hg, h.other g hg]
  · rw [Fat.setLongName, NameDcb.root_updateFcb, h.tree]
  · rw [on_setLongName, h.named, decide_eq_false hflag, Bool.false_or]
  · rw [Fat.setLongName, NameDcb.fcbs_updateFcb_self, h.short]
  · rw [Fat.setLongName, NameDcb.fcbs_updateFcb_self, h.condition]

theorem find (hsearch : ∀ t, IsSearchTree FileNameNode.name (d'.root t)) (t : NameTree) (name : Name) :
    Renamed f n d (fatFindFcb rtl t name d').2 := by
  refine ⟨fun g hg => ?_, fun t' => ?_, ?_, ?_, ?_⟩
  · rw [fcbs_fatFindFcb, h.other g hg]
  · rw [inorder_root_fatFindFcb rtl hsearch, h.tree]
  · rw [NameDcb.on, fcbs_fatFindFcb]
    exact h.named
  · rw [fcbs_fatFindFcb, h.short]
  · rw [fcbs_fatFindFcb, h.condition]

end Renamed

/-- Building the names of a file that has none in the trees. -/
theorem built_buildNames (monocase : UInt16 → UInt16) (n : NewNames)
    (hsearch : ∀ t, IsSearchTree FileNameNode.name (d.root t))
    (hoem : d.on f .hasOemLongName = false) (huni : d.on f .hasUnicodeLongName = false) :
    Renamed f n d (buildNames rtl monocase f n d) ∧ LongName monocase f n (buildNames rtl monocase f n d) := by
  have hren := renamed_setShortName (f := f) (n := n) (d := d)
  have hon : ∀ flag, flag ≠ .eightLowerCase → flag ≠ .threeLowerCase →
      (setShortName f n d).on f flag = d.on f flag := by
    intro flag h8 h3
    rw [setShortName, NameDcb.on, NameDcb.fcbs_updateFcb_self, flagOn_setFlagTo _ _ _ _ (Ne.symm h3),
      flagOn_setFlagTo _ _ _ _ (Ne.symm h8), NameDcb.on]
  have hsearch' : ∀ t, IsSearchTree FileNameNode.name ((setShortName f n d).root t) := fun t =>
    (hsearch t).of_inorder_eq (hren.tree t)
  rw [← hon _ (by simp) (by simp)] at hoem huni
  rw [buildNames, buildLongName]
  generalize setShortName f n d = d0 at hren hoem huni hsearch'
  split
  · next hlfn => exact ⟨hren, .none hoem huni (dif_pos hlfn)⟩
  · next hlfn =>
      split
      · next hascii =>
          have hnone : n.unicodeLong monocase = none := by
            rw [NewNames.unicodeLong, dif_neg hlfn, if_pos hascii]
          split
          · refine ⟨hren.clearLongName, .none ?_ ?_ hnone⟩
            · rw [on_clearLongName, hoem]
            · rw [on_clearLongName, huni]
          · next hne =>
              have hfind := hren.find rtl hsearch' .oem (oemName n.lfn hlfn)
              have hfcbs := fcbs_fatFindFcb rtl .oem (oemName n.lfn hlfn) (d := d0)
              have htree := inorder_root_fatFindFcb rtl hsearch' .oem .oem (oemName n.lfn hlfn)
              have hsome := fatFindFcb_eq_some_iff rtl (hsearch' .oem) (oemName n.lfn hlfn)
              generalize fatFindFcb rtl .oem (oemName n.lfn hlfn) d0 = found at hfind hfcbs htree hsome
              obtain ⟨node, d1⟩ := found
              have hon1 : ∀ flag, d1.on f flag = d0.on f flag := fun flag => by
                rw [NameDcb.on, show d1.fcbs = d0.fcbs from hfcbs, NameDcb.on]
              cases node with
              | some node =>
                  refine ⟨hfind.clearLongName, .none ?_ ?_ hnone⟩
                  · rw [on_clearLongName, hon1, hoem]
                  · rw [on_clearLongName, hon1, huni]
              | none =>
                  refine ⟨hfind.setLongName _ (by simp), .oem (oemName n.lfn hlfn) ?_ ?_ hnone ?_
                    (Ne.symm hne) fun x hx heq => ?_⟩
                  · rw [on_setLongName]
                    simp
                  · rw [on_setLongName, hon1, huni]
                    simp
                  · exact longName_setLongName _ _
                  · change x ∈ inorder ((setLongName f _ _ d1).root .oem) at hx
                    rw [setLongName, NameDcb.root_updateFcb, htree] at hx
                    exact absurd ((hsome x).mpr ⟨hx, heq⟩) (by simp)
      · next hwide =>
          have hlong : n.unicodeLong monocase = some (unicodeName monocase n.lfn hlfn) := by
            rw [NewNames.unicodeLong, dif_neg hlfn, if_neg hwide]
          refine ⟨hren.setLongName _ (by simp), .unicode _ ?_ ?_ hlong ?_⟩
          · rw [on_setLongName, hoem]
            simp
          · rw [on_setLongName]
            simp
          · exact longName_setLongName _ _

end Build

/-! ## Entering the names of a file -/

/-- The names of file `f` are being entered: those in `own` are in the trees, and some
files with `Blamed` are evicted. -/
structure Building (f : ℕ) (Blamed : ℕ → Prop) (db d : NameDcb) (own : NameTree → Set FileNameNode) :
    Prop where
  listed : Listed d own
  own_fcb : ∀ t x, x ∈ own t → x.fcb = f
  file : d.fcbs f = db.fcbs f
  off : db.on f .namesInSplayTree = false
  sound : ∀ g, g ≠ f → FlagsSound db g
  other : ∀ g, g ≠ f → d.fcbs g = db.fcbs g ∨ Blamed g ∧ d.on g .namesInSplayTree = false ∧
    d.on g .hasOemLongName = false ∧ d.on g .hasUnicodeLongName = false

namespace Building

variable (rtl : SplayLinks FileNameNode) {f : ℕ} {Blamed : ℕ → Prop} {db d : NameDcb}
  {own : NameTree → Set FileNameNode} (h : Building f Blamed db d own)

include h

theorem on_eq (flag : FcbFlag) : d.on f flag = db.on f flag := by
  rw [NameDcb.on, h.file, NameDcb.on]

theorem fcbs_of_on {g : ℕ} (hon : d.on g .namesInSplayTree) : g ≠ f ∧ d.fcbs g = db.fcbs g := by
  have hne : g ≠ f := by
    intro heq
    rw [heq, h.on_eq, h.off] at hon
    simp at hon
  refine ⟨hne, (h.other g hne).resolve_right fun hoff => ?_⟩
  rw [hoff.2.1] at hon
  simp at hon

theorem oneLongName : OneLongName d := by
  intro g hon
  obtain ⟨hne, heq⟩ := h.fcbs_of_on hon
  simp only [NameDcb.on, heq]
  exact (h.sound g hne).2

/-- Entering one more name. -/
theorem sat_fatInsertName {t : NameTree} {x : FileNameNode} (hx : x.fcb = f)
    (hnew : ∀ n ∈ own t, n.name ≠ x.name)
    (hblame : ∀ a ∈ db.nodes t, a.name = x.name → Blamed a.fcb) (fuel : ℕ) :
    Sat (fatInsertName rtl t x fuel) d (fun _ d' => Building f Blamed db d' (addOwn own t x))
      (fun stop _ => stop = .outOfFuel ∧ fuel < 2) := by
  have hown : ∀ t n, n ∈ own t → d.on n.fcb .namesInSplayTree = false := by
    intro t n hn
    rw [h.own_fcb t n hn, h.on_eq, h.off]
  refine (h.listed.sat_fatInsertName rtl h.oneLongName hown hnew fuel).mono ?_ fun _ _ hE => hE
  rintro _ d' ⟨d1, root, hev, rfl, hlisted⟩
  have hfcb : ∀ t' y, y ∈ addOwn own t x t' → y.fcb = f := by
    rintro t' y (hy | ⟨-, rfl⟩)
    · exact h.own_fcb t' y hy
    · exact hx
  cases hev with
  | none _ =>
      refine ⟨hlisted, hfcb, ?_, h.off, h.sound, fun g hg => ?_⟩
      · rw [NameDcb.fcbs_setRoot, h.file]
      · simp only [NameDcb.on, NameDcb.fcbs_setRoot]
        exact h.other g hg
  | one a ha hname =>
      obtain ⟨hne, heq⟩ := h.fcbs_of_on ha.1
      refine ⟨hlisted, hfcb, ?_, h.off, h.sound, fun g hg => ?_⟩
      · rw [NameDcb.fcbs_setRoot, fcbs_evict_of_ne rtl (Ne.symm hne), h.file]
      · by_cases hga : g = a.fcb
        · subst hga
          have hoff : ∀ flag : FcbFlag, flag = .namesInSplayTree ∨ flag = .hasOemLongName ∨
              flag = .hasUnicodeLongName → (evict rtl a.fcb d).on a.fcb flag = false :=
            fun flag hflag => on_evict rtl ha.1 hflag
          simp only [NameDcb.on, NameDcb.fcbs_setRoot] at hoff ⊢
          exact Or.inr ⟨hblame a ((NameDcb.nodes_congr heq).mp ha) hname, hoff _ (Or.inl rfl),
            hoff _ (Or.inr (Or.inl rfl)), hoff _ (Or.inr (Or.inr rfl))⟩
        · simp only [NameDcb.on, NameDcb.fcbs_setRoot, fcbs_evict_of_ne rtl hga]
          exact h.other g hg

/-- Entering the long name for one of the trees. -/
theorem sat_insertLongName {t : NameTree} {flag : FcbFlag}
    (hname : db.on f flag → ∃ name, (db.fcbs f).longName = some name ∧
      (∀ n ∈ own t, n.name ≠ name) ∧ ∀ a ∈ db.nodes t, a.name = name → Blamed a.fcb) (fuel : ℕ) :
    Sat (insertLongName rtl t flag f fuel) d
      (fun _ d' => Building f Blamed db d' fun t' => { x | x ∈ own t' ∨ t' = t ∧ db.on f flag ∧
        x.fcb = f ∧ x.fileNameDos = false ∧ (db.fcbs f).longName = some x.name })
      (fun stop _ => stop = .outOfFuel ∧ fuel < 2) := by
  rw [insertLongName]
  apply Sat.get_bind
  rw [h.on_eq]
  split
  · next hon =>
      obtain ⟨name, hlong, hnew, hblame⟩ := hname hon
      rw [h.file, hlong]
      dsimp only
      refine (h.sat_fatInsertName rtl (x := ⟨f, name, false⟩) rfl hnew hblame fuel).mono
        (fun _ d' hd' => ?_) fun _ _ hE => hE
      have hset : addOwn own t ⟨f, name, false⟩ = fun t' => { x | x ∈ own t' ∨ t' = t ∧
          db.on f flag ∧ x.fcb = f ∧ x.fileNameDos = false ∧ some name = some x.name } := by
        funext t'
        ext ⟨g, y, b⟩
        simp only [addOwn, Set.mem_ofPred_eq, hon, true_and, FileNameNode.mk.injEq, Option.some.injEq,
          eq_comm (a := y), and_comm (a := name = y)]
      rw [← hset]
      exact hd'
  · next hoff =>
      refine Sat.pure ?_
      have hset : own = fun t' => { x | x ∈ own t' ∨ t' = t ∧ db.on f flag ∧
          x.fcb = f ∧ x.fileNameDos = false ∧ (db.fcbs f).longName = some x.name } := by
        funext t'
        ext x
        simp [hoff]
      rw [← hset]
      exact h

end Building

/-- A name of file `g` is in the way of the names `n`. -/
def InTheWay (monocase : UInt16 → UInt16) (n : NewNames) (d : NameDcb) (g : ℕ) : Prop :=
  (∃ a ∈ d.nodes .oem, a.fcb = g ∧ a.name = n.shortName) ∨
    ∃ a ∈ d.nodes .unicode, a.fcb = g ∧ n.unicodeLong monocase = some a.name

/-- The names of file `f` are entered, and files in the way are evicted. -/
structure Constructed (monocase : UInt16 → UInt16) (f : ℕ) (n : NewNames) (d d' : NameDcb) : Prop where
  indexed : Indexed d'
  short : ⟨f, n.shortName, true⟩ ∈ d'.nodes .oem
  unicode : ∀ u, n.unicodeLong monocase = some u → ⟨f, u, false⟩ ∈ d'.nodes .unicode
  condition : (d'.fcbs f).fcbCondition = (d.fcbs f).fcbCondition
  other : ∀ g, g ≠ f → d'.fcbs g = d.fcbs g ∨
    InTheWay monocase n d g ∧ d'.on g .namesInSplayTree = false

section Construct

variable (rtl : SplayLinks FileNameNode) {monocase : UInt16 → UInt16} {d : NameDcb} {f : ℕ}
  {n : NewNames}

/-- Nodes of other files. -/
theorem mem_nodes_of_renamed {db : NameDcb} (hren : Renamed f n d db)
    (hoff : d.on f .namesInSplayTree = false) {t : NameTree} {x : FileNameNode} :
    x ∈ db.nodes t ↔ x ∈ d.nodes t := by
  by_cases hx : x.fcb = f
  · refine iff_of_false (fun hmem => ?_) fun hmem => ?_
    · have := hmem.1
      rw [hx, hren.named, hoff] at this
      simp at this
    · have := hmem.1
      rw [hx, hoff] at this
      simp at this
  · exact NameDcb.nodes_congr (hren.other _ hx)

theorem building_of_renamed (monocase : UInt16 → UInt16) {db : NameDcb} (h : Indexed d) (hoff : d.on f .namesInSplayTree = false)
    (hren : Renamed f n d db) :
    Building f (InTheWay monocase n d) db db fun _ => ∅ := by
  refine ⟨⟨fun t => ?_, fun t x => ?_⟩, fun t x hx => absurd hx (Set.notMem_empty x), rfl, ?_,
    fun g hg => ?_, fun g _ => Or.inl rfl⟩
  · exact (h.listed.search t).of_inorder_eq (hren.tree t)
  · rw [hren.tree, h.listed.mem, mem_nodes_of_renamed hren hoff]
  · rw [hren.named, hoff]
  · have := h.flags g
    simp only [FlagsSound, NameDcb.on, hren.other g hg] at this ⊢
    exact this

/-- The last step: the flag says that the names are in the trees. -/
theorem Building.constructed {db d3 : NameDcb} {own : NameTree → Set FileNameNode}
    (h : Building f (InTheWay monocase n d) db d3 own) (hren : Renamed f n d db)
    (hlong : LongName monocase f n db)
    (hoem : ∀ x, x ∈ own .oem ↔ x = ⟨f, n.shortName, true⟩ ∨ db.on f .hasOemLongName ∧
      x.fcb = f ∧ x.fileNameDos = false ∧ (db.fcbs f).longName = some x.name)
    (huni : ∀ x, x ∈ own .unicode ↔ db.on f .hasUnicodeLongName ∧
      x.fcb = f ∧ x.fileNameDos = false ∧ (db.fcbs f).longName = some x.name) :
    Constructed monocase f n d (d3.updateFcb f fun b =>
      { b with fcbState := setFlag b.fcbState .namesInSplayTree }) := by
  set d' := d3.updateFcb f fun b => { b with fcbState := setFlag b.fcbState .namesInSplayTree } with hd'
  have hfile : (d'.fcbs f).shortName = some n.shortName ∧ (d'.fcbs f).longName = (db.fcbs f).longName ∧
      (d'.fcbs f).fcbCondition = (d.fcbs f).fcbCondition := by
    rw [hd', NameDcb.fcbs_updateFcb_self, h.file]
    exact ⟨hren.short, rfl, hren.condition⟩
  have hon : ∀ flag, d'.on f flag = (decide (FcbFlag.namesInSplayTree = flag) || db.on f flag) := by
    intro flag
    rw [hd', NameDcb.on, NameDcb.fcbs_updateFcb_self, flagOn_setFlag, h.file, NameDcb.on]
  have hothers : ∀ g, g ≠ f → d'.fcbs g = d3.fcbs g := fun g hg => NameDcb.fcbs_updateFcb_of_ne _ hg _
  have hnodes : ∀ t x, x ∈ d'.nodes t ↔ x ∈ d3.nodes t ∨ x ∈ own t := by
    intro t x
    by_cases hx : x.fcb = f
    · have hold : x ∉ d3.nodes t := fun hmem => by
        have := hmem.1
        rw [hx, h.on_eq, h.off] at this
        simp at this
      rw [or_iff_right hold]
      obtain ⟨g, y, b⟩ := x
      subst hx
      cases t with
      | oem =>
          rw [hoem]
          simp only [NameDcb.nodes, Set.mem_ofPred_eq, hon, hfile, FileNameNode.mk.injEq]
          cases b <;> simp [eq_comm (a := n.shortName)]
      | unicode =>
          rw [huni]
          simp only [NameDcb.nodes, Set.mem_ofPred_eq, hon, hfile]
          cases b <;> simp
    · rw [NameDcb.nodes_congr (hothers _ hx)]
      exact (or_iff_left fun ho => hx (h.own_fcb t x ho)).symm
  have hshort : (⟨f, n.shortName, true⟩ : FileNameNode) ∈ d'.nodes .oem :=
    (hnodes _ _).mpr (Or.inr ((hoem _).mpr (Or.inl rfl)))
  refine ⟨⟨⟨fun t => ?_, fun t x => ?_⟩, fun g => ?_⟩, hshort, fun u hu => ?_, hfile.2.2, fun g hg => ?_⟩
  · rw [hd', NameDcb.root_updateFcb]
    exact h.listed.search t
  · rw [hd', NameDcb.root_updateFcb, h.listed.mem, ← hd', hnodes]
    simp
  · by_cases hg : g = f
    · subst hg
      have hone : ¬ (db.on g .hasOemLongName ∧ db.on g .hasUnicodeLongName) := by
        cases hlong <;> simp_all
      simpa [FlagsSound, hon] using hone
    · rcases h.other g hg with heq | ⟨-, h1, h2, h3⟩
      · have := h.sound g hg
        simp only [FlagsSound, NameDcb.on, hothers g hg, heq] at this ⊢
        exact this
      · simp only [FlagsSound, NameDcb.on, hothers g hg] at h1 h2 h3 ⊢
        simp [h2, h3]
  · refine (hnodes _ _).mpr (Or.inr ((huni _).mpr ?_))
    cases hlong with
    | none _ _ hnone => simp [hnone] at hu
    | oem _ _ _ hnone => simp [hnone] at hu
    | unicode name _ hflag hsome hname =>
        rw [hsome, Option.some.injEq] at hu
        subst hu
        exact ⟨hflag, rfl, rfl, hname⟩
  · rcases h.other g hg with heq | ⟨hblame, hoff, -⟩
    · exact Or.inl ((hothers g hg).trans (heq.trans (hren.other g hg)))
    · refine Or.inr ⟨hblame, ?_⟩
      rw [NameDcb.on, hothers g hg]
      exact hoff

/-- **Naming a file** whose names are not in the trees. -/
theorem Indexed.sat_fatConstructNamesInFcb (monocase : UInt16 → UInt16) (n : NewNames)
    (h : Indexed d) (hoff : d.on f .namesInSplayTree = false) (fuel : ℕ) :
    Sat (fatConstructNamesInFcb rtl monocase f n fuel) d (fun _ d' => Constructed monocase f n d d')
      (fun stop _ => stop = .outOfFuel ∧ fuel < 2) := by
  have hflags := (h.flags f).1
  rw [hoff] at hflags
  have hoem : d.on f .hasOemLongName = false := by
    cases ho : d.on f .hasOemLongName with
    | false => rfl
    | true => exact absurd (hflags (Or.inl ho)) (by simp)
  have huni : d.on f .hasUnicodeLongName = false := by
    cases hu : d.on f .hasUnicodeLongName with
    | false => rfl
    | true => exact absurd (hflags (Or.inr hu)) (by simp)
  obtain ⟨hren, hlong⟩ := built_buildNames rtl monocase n h.listed.search hoem huni
  have hnodes := @mem_nodes_of_renamed d f n _ hren hoff
  rw [fatConstructNamesInFcb]
  apply Sat.modify_bind
  have h0 := building_of_renamed monocase h hoff hren
  generalize buildNames rtl monocase f n d = db at hren hlong hnodes h0
  -- the short name
  refine Sat.bind (h0.sat_fatInsertName rtl (x := ⟨f, n.shortName, true⟩) rfl
    (fun x hx => absurd hx (Set.notMem_empty x))
    (fun a ha hname => Or.inl ⟨a, hnodes.mp ha, rfl, hname⟩) fuel) fun _ d1 h1 => ?_
  -- a long name for the OEM tree is not in the way of anything
  refine Sat.bind (h1.sat_insertLongName rtl (fun hon => ?_) fuel) fun _ d2 h2 => ?_
  · cases hlong with
    | none hno => simp [hno] at hon
    | unicode _ hno => simp [hno] at hon
    | oem name _ _ _ hname hne hfree =>
        refine ⟨name, hname, ?_, fun a ha heq => ?_⟩
        · rintro x (hx | ⟨-, rfl⟩)
          · exact absurd hx (Set.notMem_empty x)
          · exact Ne.symm hne
        · exact absurd heq (hfree a ((h0.listed.mem _ _).mpr (Or.inl ha)))
  refine Sat.bind (h2.sat_insertLongName rtl (fun hon => ?_) fuel) fun _ d3 h3 => ?_
  · cases hlong with
    | none _ hno => simp [hno] at hon
    | oem _ _ hno => simp [hno] at hon
    | unicode name _ _ hsome hname =>
        refine ⟨name, hname, fun x hx => ?_, fun a ha heq => ?_⟩
        · simp [addOwn] at hx
        · exact Or.inr ⟨a, hnodes.mp ha, rfl, by rw [hsome, heq]⟩
  refine Sat.modify (h3.constructed hren hlong (fun x => ?_) fun x => ?_)
  · simp [addOwn]
  · simp [addOwn]

end Construct

/-! ## Runs -/

/-- What happens to the trees and files of a directory. -/
inductive NameOp
  | construct (f : ℕ) (n : NewNames)
  | remove (f : ℕ)
  | find (t : NameTree) (name : Name)
  | change (f : ℕ) (state : BitVec 32) (condition : FcbCondition)

/-- A file is named when its names are not in the trees; the rest of the driver does not
touch the flags about names. -/
def NameOp.Allowed (d : NameDcb) : NameOp → Prop
  | .construct f _ => d.on f .namesInSplayTree = false
  | .change f state _ => flagOn state .namesInSplayTree = d.on f .namesInSplayTree ∧
      flagOn state .hasOemLongName = d.on f .hasOemLongName ∧
      flagOn state .hasUnicodeLongName = d.on f .hasUnicodeLongName
  | _ => True

/-- The rest of the driver changes the flags and the condition of a file. -/
def changeFcb (f : ℕ) (state : BitVec 32) (condition : FcbCondition) (d : NameDcb) : NameDcb :=
  d.updateFcb f fun b => { b with fcbState := state, fcbCondition := condition }

section Runs

variable (rtl : SplayLinks FileNameNode) (monocase : UInt16 → UInt16)

/-- The operation leads from `d` to `d'`. -/
def NameOp.Leads (d : NameDcb) : NameOp → NameDcb → Prop
  | .construct f n, d' => ∃ fuel, fatConstructNamesInFcb rtl monocase f n fuel d = .ok () d'
  | .remove f, d' => d' = fatRemoveNames rtl f d
  | .find t name, d' => d' = (fatFindFcb rtl t name d).2
  | .change f state condition, d' => d' = changeFcb f state condition d

/-- One operation of a run. -/
structure NameEvent where
  before : NameDcb
  op : NameOp
  after : NameDcb

/-- The runs that begin with empty trees, with their history, the last operation first. -/
inductive NameRun : NameDcb → List NameEvent → Prop
  | start {d : NameDcb} : (∀ t, d.root t = .nil) →
      (∀ f, d.on f .namesInSplayTree = false ∧ d.on f .hasOemLongName = false ∧
        d.on f .hasUnicodeLongName = false) → NameRun d []
  | step {d d' : NameDcb} {history : List NameEvent} {op : NameOp} : NameRun d history → op.Allowed d →
      op.Leads rtl monocase d d' → NameRun d' (⟨d, op, d'⟩ :: history)

/-- The trees are in order, lookups are exact, and a file can be named. -/
structure TreesCorrect (d : NameDcb) : Prop where
  search : ∀ t, (inorder (d.root t)).Pairwise fun a b => compareNames a.name b.name = .lt
  find : ∀ t name node, (fatFindFcb rtl t name d).1 = some node ↔
    node ∈ inorder (d.root t) ∧ node.name = name
  isSome : ∀ t name, (fatFindFcb rtl t name d).1.isSome ↔ ∃ node ∈ inorder (d.root t), node.name = name
  returns : ∀ f n fuel, (NameOp.construct f n).Allowed d → 2 ≤ fuel →
    ∃ d', fatConstructNamesInFcb rtl monocase f n fuel d = .ok () d'

/-- Entering names takes names of other files out only when these are not in normal
state. -/
def NameEvent.OnlyStaleEvicted (e : NameEvent) : Prop :=
  match e.op with
  | .construct f _ => ∀ t, ∀ x ∈ inorder (e.before.root t), x.fcb ≠ f →
      x ∉ inorder (e.after.root t) → (e.before.fcbs x.fcb).fcbCondition ≠ .fcbGood
  | _ => True

/-- No name that is entered is the name of a file in normal state. -/
def NameEvent.NoGoodInTheWay (e : NameEvent) : Prop :=
  match e.op with
  | .construct _ n =>
      (∀ x ∈ inorder (e.before.root .oem), x.name = n.shortName →
        (e.before.fcbs x.fcb).fcbCondition ≠ .fcbGood) ∧
      ∀ x ∈ inorder (e.before.root .unicode), n.unicodeLong monocase = some x.name →
        (e.before.fcbs x.fcb).fcbCondition ≠ .fcbGood
  | _ => True

variable {rtl monocase} {d d' : NameDcb} {history : List NameEvent} {op : NameOp}

theorem Indexed.remove (h : Indexed d) (f : ℕ) : Indexed (fatRemoveNames rtl f d) := by
  by_cases hon : d.on f .namesInSplayTree
  · refine ⟨h.listed.fatRemoveNames rtl (fun t n hn => absurd hn (Set.notMem_empty n)) hon
      (h.flags f).2, fun g => ?_⟩
    by_cases hg : g = f
    · subst hg
      simp [FlagsSound, on_fatRemoveNames rtl hon]
    · have := h.flags g
      simp only [FlagsSound, NameDcb.on, fcbs_fatRemoveNames_of_ne rtl hg] at this ⊢
      exact this
  · rw [fatRemoveNames, if_neg hon]
    exact h

theorem Indexed.find (h : Indexed d) (t : NameTree) (name : Name) : Indexed (fatFindFcb rtl t name d).2 := by
  have hfcbs := fcbs_fatFindFcb rtl t name (d := d)
  refine ⟨⟨fun t' => ?_, fun t' x => ?_⟩, fun g => ?_⟩
  · exact (h.listed.search t').of_inorder_eq (inorder_root_fatFindFcb rtl h.listed.search t t' name)
  · rw [inorder_root_fatFindFcb rtl h.listed.search, h.listed.mem]
    exact or_congr_left (NameDcb.nodes_congr (by rw [hfcbs])).symm
  · have := h.flags g
    simp only [FlagsSound, NameDcb.on, hfcbs] at this ⊢
    exact this

theorem Indexed.change (h : Indexed d) {f : ℕ} {state : BitVec 32} {condition : FcbCondition}
    (hflags : (NameOp.change f state condition).Allowed d) : Indexed (changeFcb f state condition d) := by
  obtain ⟨h1, h2, h3⟩ := hflags
  have hon : ∀ g flag, flag = .namesInSplayTree ∨ flag = .hasOemLongName ∨ flag = .hasUnicodeLongName →
      (changeFcb f state condition d).on g flag = d.on g flag := by
    intro g flag hflag
    by_cases hg : g = f
    · subst hg
      rw [changeFcb, NameDcb.on, NameDcb.fcbs_updateFcb_self]
      rcases hflag with rfl | rfl | rfl
      · exact h1
      · exact h2
      · exact h3
    · rw [changeFcb, NameDcb.on, NameDcb.fcbs_updateFcb_of_ne _ hg, NameDcb.on]
  have hnames : ∀ g, ((changeFcb f state condition d).fcbs g).shortName = (d.fcbs g).shortName ∧
      ((changeFcb f state condition d).fcbs g).longName = (d.fcbs g).longName := by
    intro g
    by_cases hg : g = f
    · subst hg
      rw [changeFcb, NameDcb.fcbs_updateFcb_self]
      exact ⟨rfl, rfl⟩
    · rw [changeFcb, NameDcb.fcbs_updateFcb_of_ne _ hg]
      exact ⟨rfl, rfl⟩
  refine ⟨⟨fun t => ?_, fun t x => ?_⟩, fun g => ?_⟩
  · rw [changeFcb, NameDcb.root_updateFcb]
    exact h.listed.search t
  · rw [changeFcb, NameDcb.root_updateFcb, ← changeFcb, h.listed.mem]
    cases t <;> simp [NameDcb.nodes, hon, hnames]
  · simp only [FlagsSound, hon _ _ (Or.inl rfl), hon _ _ (Or.inr (Or.inl rfl)),
      hon _ _ (Or.inr (Or.inr rfl))]
    exact h.flags g

/-- **The invariant of a step.** -/
theorem Indexed.step (h : Indexed d) (hallowed : op.Allowed d) (hleads : op.Leads rtl monocase d d') :
    Indexed d' := by
  cases op with
  | construct f n =>
      obtain ⟨fuel, hok⟩ := hleads
      exact ((h.sat_fatConstructNamesInFcb rtl monocase n hallowed fuel).ok hok).indexed
  | remove f =>
      subst hleads
      exact h.remove f
  | find t name =>
      subst hleads
      exact h.find t name
  | change f state condition =>
      subst hleads
      exact h.change hallowed

/-- **The invariant of a run.** -/
theorem NameRun.indexed (h : NameRun rtl monocase d history) : Indexed d := by
  induction h with
  | start hroot hflags =>
      refine ⟨⟨fun t => ?_, fun t x => ?_⟩, fun f => ?_⟩
      · rw [hroot]
        exact isSearchTree_nil
      · rw [hroot]
        simp [NameDcb.nodes, (hflags _).1]
      · simp [FlagsSound, (hflags f).2.1, (hflags f).2.2]
  | step _ hallowed hleads ih => exact ih.step hallowed hleads

/-- The states of a run. -/
theorem NameRun.events (h : NameRun rtl monocase d history) :
    ∀ e ∈ history, Indexed e.before ∧ e.op.Allowed e.before ∧ e.op.Leads rtl monocase e.before e.after := by
  induction h with
  | start => simp
  | step hrun hallowed hleads ih =>
      intro e he
      rw [List.mem_cons] at he
      obtain rfl | he := he
      · exact ⟨hrun.indexed, hallowed, hleads⟩
      · exact ih e he

theorem Indexed.treesCorrect (h : Indexed d) : TreesCorrect rtl monocase d := by
  refine ⟨fun t => ?_, fun t name node => ?_, fun t name => ?_, fun f n fuel hallowed hfuel => ?_⟩
  · exact List.Pairwise.imp (fun {a b} hab => (compareNames_compares a.name b.name).eq_lt.mpr hab)
      (h.listed.search t)
  · exact fatFindFcb_eq_some_iff rtl (h.listed.search t) name node
  · rw [Option.isSome_iff_exists]
    exact exists_congr fun node => fatFindFcb_eq_some_iff rtl (h.listed.search t) name node
  · obtain ⟨_, d', hok, -⟩ := (h.sat_fatConstructNamesInFcb rtl monocase n hallowed fuel).exists_ok
      fun stop _ hE => absurd hfuel (not_le.mpr hE.2)
    exact ⟨d', hok⟩

/-- **Evictions.**  Entering names evicts files in normal state exactly when one of them
has a name that is entered. -/
theorem NameEvent.onlyStaleEvicted_iff {e : NameEvent} (h : Indexed e.before)
    (hallowed : e.op.Allowed e.before) (hleads : e.op.Leads rtl monocase e.before e.after) :
    e.OnlyStaleEvicted ↔ e.NoGoodInTheWay monocase := by
  obtain ⟨d, op, d'⟩ := e
  cases op with
  | construct f n =>
      obtain ⟨fuel, hok⟩ := hleads
      have hnew := (h.sat_fatConstructNamesInFcb rtl monocase n hallowed fuel).ok hok
      have hsearch := hnew.indexed.listed.search
      have hne : ∀ t x, x ∈ inorder (d.root t) → x.fcb ≠ f := by
        intro t x hx heq
        have hon := (h.mem.mp hx).1
        rw [heq] at hon
        exact absurd (hon.symm.trans hallowed) (by simp)
      -- a node of another file with the name of a node of `f` is gone
      have hgone : ∀ t x y, x ∈ inorder (d.root t) → y ∈ d'.nodes t → y.fcb = f → x.name = y.name →
          x ∉ inorder (d'.root t) := by
        intro t x y hx hy hfcb hname hin
        have heq := (hsearch t).eq_of_key_eq hin (hnew.indexed.mem.mpr hy) hname
        exact hne t x hx (heq ▸ hfcb)
      constructor
      · intro honly
        refine ⟨fun x hx hname => ?_, fun x hx hname => ?_⟩
        · exact honly .oem x hx (hne _ x hx) (hgone _ x _ hx hnew.short rfl hname)
        · exact honly .unicode x hx (hne _ x hx) (hgone _ x _ hx (hnew.unicode _ hname) rfl rfl)
      · intro hno t x hx hfcb hgone'
        rcases hnew.other x.fcb hfcb with heq | ⟨hway, -⟩
        · exact absurd (hnew.indexed.mem.mpr ((NameDcb.nodes_congr heq).mpr (h.mem.mp hx))) hgone'
        · rcases hway with ⟨a, ha, hafcb, hname⟩ | ⟨a, ha, hafcb, hname⟩
          · exact hafcb ▸ hno.1 a (h.mem.mpr ha) hname
          · exact hafcb ▸ hno.2 a (h.mem.mpr ha) hname
  | remove f => exact Iff.rfl
  | find t name => exact Iff.rfl
  | change f state condition => exact Iff.rfl

end Runs

/-- `CompareNames` is a strict total order. -/
structure ComparesStrictly : Prop where
  eq_iff : ∀ a b, compareNames a b = .eq ↔ a = b
  gt_iff : ∀ a b, compareNames a b = .gt ↔ compareNames b a = .lt
  trans : ∀ a b c, compareNames a b = .lt → compareNames b c = .lt → compareNames a c = .lt

theorem comparesStrictly : ComparesStrictly := by
  refine ⟨fun a b => ?_, fun a b => ?_, fun a b c hab hbc => ?_⟩
  · exact (compareNames_compares a b).eq_eq
  · rw [(compareNames_compares a b).eq_gt, (compareNames_compares b a).eq_lt]
  · rw [(compareNames_compares _ _).eq_lt] at *
    exact hab.trans hbc

/-- **The name trees of a directory.**  In every run `CompareNames` is a strict total
order, the trees are search trees for it and lookups are exact; and names of other files
are taken out only when these are not in normal state exactly when no name that is entered
is one of a file in normal state. -/
theorem nameTrees_iff (rtl : SplayLinks FileNameNode) (monocase : UInt16 → UInt16) {d : NameDcb}
    {history : List NameEvent} (h : NameRun rtl monocase d history) :
    (ComparesStrictly ∧ TreesCorrect rtl monocase d ∧
        ∀ e ∈ history, TreesCorrect rtl monocase e.before ∧ e.OnlyStaleEvicted) ↔
      ∀ e ∈ history, e.NoGoodInTheWay monocase := by
  have hiff : ∀ e ∈ history, (e.OnlyStaleEvicted ↔ e.NoGoodInTheWay monocase) := by
    intro e he
    obtain ⟨hindexed, hallowed, hleads⟩ := h.events e he
    exact e.onlyStaleEvicted_iff hindexed hallowed hleads
  constructor
  · rintro ⟨-, -, hall⟩ e he
    exact (hiff e he).mp (hall e he).2
  · intro hno
    exact ⟨comparesStrictly, h.indexed.treesCorrect, fun e he =>
      ⟨(h.events e he).1.treesCorrect, (hiff e he).mpr (hno e he)⟩⟩

/-- A directory without open files. -/
def emptyDcb : NameDcb := ⟨.nil, .nil, fun _ => ⟨0, .fcbGood, none, none⟩, false⟩

/-- The short name `A`, without a long name. -/
def nameA : NewNames := ⟨⟨[0x41], by decide⟩, false, false, []⟩

theorem nameRun_emptyDcb : NameRun (bottomUp FileNameNode) id emptyDcb [] :=
  .start (fun t => by cases t <;> rfl) fun f => by simp [NameDcb.on, emptyDcb, flagOn]

/-- A file is named in an empty directory. -/
theorem nameTrees_emptyDcb : ∃ d e, NameRun (bottomUp FileNameNode) id d [e] ∧
    ComparesStrictly ∧ TreesCorrect (bottomUp FileNameNode) id d ∧
      ∀ e' ∈ [e], TreesCorrect (bottomUp FileNameNode) id e'.before ∧ e'.OnlyStaleEvicted := by
  have hallowed : (NameOp.construct 0 nameA).Allowed emptyDcb := rfl
  have hcorrect : TreesCorrect (bottomUp FileNameNode) id emptyDcb := nameRun_emptyDcb.indexed.treesCorrect
  obtain ⟨d, hok⟩ := hcorrect.returns 0 nameA 2 hallowed le_rfl
  have hrun := nameRun_emptyDcb.step hallowed ⟨2, hok⟩
  refine ⟨d, _, hrun, (nameTrees_iff _ id hrun).mpr fun e he => ?_⟩
  obtain rfl := List.mem_singleton.mp he
  exact ⟨fun x hx => absurd hx List.not_mem_nil, fun x hx => absurd hx List.not_mem_nil⟩

/-- Two files with the short name `A` are named, one after the other.  The first is in
normal state, and its name is taken out of the tree. -/
theorem not_onlyStaleEvicted_nameA : ∃ d e e', NameRun (bottomUp FileNameNode) id d [e', e] ∧
    ¬ e'.OnlyStaleEvicted := by
  have hallowed : (NameOp.construct 0 nameA).Allowed emptyDcb := rfl
  have hindexed := nameRun_emptyDcb.indexed
  obtain ⟨_, d1, hok1, h1⟩ := (hindexed.sat_fatConstructNamesInFcb (bottomUp FileNameNode)
    id nameA hallowed 2).exists_ok fun stop _ hE => absurd hE.2 (by norm_num)
  have hrun1 := nameRun_emptyDcb.step hallowed ⟨2, hok1⟩
  have hallowed1 : (NameOp.construct 1 nameA).Allowed d1 := by
    rcases h1.other 1 (by norm_num) with heq | ⟨-, hoff⟩
    · change d1.on 1 .namesInSplayTree = false
      rw [NameDcb.on, heq]
      decide
    · exact hoff
  obtain ⟨_, d2, hok2, h2⟩ := (h1.indexed.sat_fatConstructNamesInFcb (bottomUp FileNameNode)
    id nameA hallowed1 2).exists_ok fun stop _ hE => absurd hE.2 (by norm_num)
  have hrun2 := hrun1.step hallowed1 ⟨2, hok2⟩
  refine ⟨d2, _, _, hrun2, fun honly => ?_⟩
  obtain ⟨hindexed1, hallowed1', hleads1⟩ := hrun2.events _ (List.mem_cons_self ..)
  have hno := (NameEvent.onlyStaleEvicted_iff hindexed1 hallowed1' hleads1).mp honly
  exact hno.1 ⟨0, nameA.shortName, true⟩ (h1.indexed.mem.mpr h1.short) rfl h1.condition

end KernelDrivers.Fat
