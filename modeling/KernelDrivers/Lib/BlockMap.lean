import KernelDrivers.Lib.Wire

/-!
# Strings of bytes kept in blocks

A string of bytes is cut into blocks of one size, and a memory holds some of them, each at a place
of its own.  A block without a place is zero.

## Main definitions

* `content` — the string.
* `Apart` — no two of the first `n` blocks share a byte.

## Main results

* `content_place` — bytes stored into a block are bytes of the string.
* `content_place_of_outside` — bytes stored elsewhere are not.
* `content_of_new` — a zeroed block for one without a place.
-/

namespace KernelDrivers

/-- The string that is kept in blocks of `bs` bytes at `base`. -/
def content (bs : ℕ) (base : ℕ → Option ℕ) (m : ℕ → UInt8) (x : ℕ) : UInt8 :=
  match base (x / bs) with
  | none => 0
  | some d => m (d + x % bs)

/-- The first `n` blocks are apart. -/
def Apart (bs n : ℕ) (base : ℕ → Option ℕ) : Prop :=
  ∀ i j d e, i < n → j < n → i ≠ j → base i = some d → base j = some e → d + bs ≤ e ∨ e + bs ≤ d

section Content

variable {bs n i p x d first : ℕ} {base : ℕ → Option ℕ} {m : ℕ → UInt8} {data : List UInt8}

theorem content_of_none (h : base (x / bs) = none) : content bs base m x = 0 := by
  rw [content, h]

theorem content_of_some (h : base (x / bs) = some d) : content bs base m x = m (d + x % bs) := by
  rw [content, h]

theorem content_congr {base' : ℕ → Option ℕ} (h : base' (x / bs) = base (x / bs)) :
    content bs base' m x = content bs base m x := by
  rw [content, content, h]

/-- The block and the offset in it of a byte. -/
theorem block_and_offset (hp : p < bs) : (i * bs + p) / bs = i ∧ (i * bs + p) % bs = p := by
  rw [Nat.mul_comm, Nat.mul_add_div (by omega), Nat.mul_add_mod, Nat.div_eq_of_lt hp,
    Nat.mod_eq_of_lt hp]
  exact ⟨rfl, rfl⟩

theorem slice_content_of_none (h : base i = none) (hp : p + n ≤ bs) :
    slice (content bs base m) (i * bs + p) n = List.replicate n 0 := by
  rw [List.eq_replicate_iff]
  refine ⟨length_slice _ _ _, ?_⟩
  intro b hb
  rw [slice, List.mem_map] at hb
  obtain ⟨k, hk, rfl⟩ := hb
  have hlt := List.mem_range.mp hk
  rw [Nat.add_assoc]
  exact content_of_none (by rw [(block_and_offset (by omega)).1, h])

theorem slice_content_of_some (h : base i = some d) (hp : p + n ≤ bs) :
    slice (content bs base m) (i * bs + p) n = slice m (d + p) n := by
  rw [slice, slice, List.map_inj_left]
  intro k hk
  have hlt := List.mem_range.mp hk
  obtain ⟨hdiv, hmod⟩ := block_and_offset (i := i) (show p + k < bs by omega)
  rw [Nat.add_assoc, content_of_some (by rw [hdiv, h]), hmod, Nat.add_assoc]

theorem content_place (hapart : Apart bs n base) (hi : i < n) (h : base i = some d)
    (hp : p + data.length ≤ bs) (hx : x < n * bs) :
    content bs base (place m (d + p) data) x = place (content bs base m) (i * bs + p) data x := by
  have hbs : 0 < bs := by
    rcases Nat.eq_zero_or_pos bs with rfl | hpos
    · simp at hx
    · exact hpos
  have hj : x / bs < n := Nat.div_lt_of_lt_mul (by rwa [Nat.mul_comm] at hx)
  have hmod := Nat.mod_lt x hbs
  have hsplit : x / bs * bs + x % bs = x := by
    rw [Nat.mul_comm]
    exact Nat.div_add_mod x bs
  rcases eq_or_ne (x / bs) i with rfl | hne
  · rw [content_of_some h]
    rcases Nat.lt_or_ge (x % bs) p with hlow | hhigh
    · rw [place_of_lt _ _ (by omega), place_of_lt _ _ (by omega), content_of_some h]
    · rcases Nat.lt_or_ge (x % bs) (p + data.length) with hin | hout
      · have hget := List.getElem?_eq_getElem (show x % bs - p < data.length by omega)
        rw [place_of_getElem? _ (by omega) (show data[d + x % bs - (d + p)]? = _ by
            rw [Nat.add_sub_add_left]
            exact hget),
          place_of_getElem? _ (by omega) (show data[x - (x / bs * bs + p)]? = _ by
            rw [show x - (x / bs * bs + p) = x % bs - p by omega]
            exact hget)]
      · rw [place_of_le _ (by omega), place_of_le _ (by omega), content_of_some h]
  · have hrange : x < i * bs + p ∨ i * bs + p + data.length ≤ x := by
      rcases Nat.lt_or_gt_of_ne hne with hlt | hgt
      · have := Nat.mul_le_mul_right bs (Nat.succ_le_of_lt hlt)
        rw [Nat.succ_mul] at this
        omega
      · have := Nat.mul_le_mul_right bs (Nat.succ_le_of_lt hgt)
        rw [Nat.succ_mul] at this
        omega
    have hsame : place (content bs base m) (i * bs + p) data x = content bs base m x := by
      rcases hrange with hlt | hge
      · exact place_of_lt _ _ hlt
      · exact place_of_le _ hge
    rw [hsame]
    cases he : base (x / bs) with
    | none => rw [content_of_none he, content_of_none he]
    | some e =>
        rw [content_of_some he, content_of_some he]
        rcases hapart (x / bs) i e d hj hi hne he h with hle | hle
        · exact place_of_lt _ _ (by omega)
        · exact place_of_le _ (by omega)

theorem content_place_of_outside (hx : x < n * bs)
    (hout : ∀ j e, j < n → base j = some e → first + data.length ≤ e ∨ e + bs ≤ first) :
    content bs base (place m first data) x = content bs base m x := by
  have hbs : 0 < bs := by
    rcases Nat.eq_zero_or_pos bs with rfl | hpos
    · simp at hx
    · exact hpos
  have hj : x / bs < n := Nat.div_lt_of_lt_mul (by rwa [Nat.mul_comm] at hx)
  have hmod := Nat.mod_lt x hbs
  cases he : base (x / bs) with
  | none => rw [content_of_none he, content_of_none he]
  | some e =>
      rw [content_of_some he, content_of_some he]
      rcases hout _ e hj he with hle | hle
      · exact place_of_le _ (by omega)
      · exact place_of_lt _ _ (by omega)

/-- A block gets a place that is zero. -/
theorem content_of_new {base' : ℕ → Option ℕ} (hbs : 0 < bs) (hnone : base i = none)
    (hsome : base' i = some d) (hsame : x / bs ≠ i → base' (x / bs) = base (x / bs))
    (hzero : ∀ k, k < bs → m (d + k) = 0) : content bs base' m x = content bs base m x := by
  rcases eq_or_ne (x / bs) i with rfl | hne
  · rw [content_of_some hsome, content_of_none hnone]
    exact hzero _ (Nat.mod_lt x hbs)
  · exact content_congr (hsame hne)

end Content

end KernelDrivers
