import Mathlib

/-!
# Byte sequences: slices, overwriting, little-endian numbers

* `slice xs off n` : the `n` entries of `xs` from `off` on;
* `patch dst off src` : `dst` with `src` written over it from `off` on (`getElem?_patch`,
  `slice_patch_self`, `slice_patch_of_subset`, `slice_patch_ne`);
* `Frame s t W` : every entry outside `W` is unchanged from `s` to `t`;
* `leNat`, `leBytes` : little-endian numbers (`leNat_leBytes`, `leBytes_leNat`).
-/

namespace ByteSeq

section Slices
variable {α : Type*}

/-- The `n` entries of `xs` from `off` on. -/
def slice (xs : List α) (off n : Nat) : List α := (xs.drop off).take n

/-- `dst` with `src` written over it from `off` on. -/
def patch (dst : List α) (off : Nat) (src : List α) : List α :=
  dst.take off ++ (src ++ dst.drop (off + src.length))

theorem getElem?_slice (xs : List α) (off n i : Nat) :
    (slice xs off n)[i]? = if i < n then xs[off + i]? else none := by
  rw [slice, List.getElem?_take]
  split <;> simp

theorem length_slice {xs : List α} {off n : Nat} (h : off + n ≤ xs.length) :
    (slice xs off n).length = n := by
  rw [slice, List.length_take, List.length_drop]
  omega

theorem length_patch {dst src : List α} {off : Nat} (h : off + src.length ≤ dst.length) :
    (patch dst off src).length = dst.length := by
  simp only [patch, List.length_append, List.length_take, List.length_drop]
  omega

theorem getElem?_patch {dst src : List α} {off : Nat} (h : off + src.length ≤ dst.length) (i : Nat) :
    (patch dst off src)[i]? =
      if off ≤ i ∧ i < off + src.length then src[i - off]? else dst[i]? := by
  have hoff : (dst.take off).length = off := by rw [List.length_take]; omega
  rw [patch]
  by_cases h1 : i < off
  · rw [List.getElem?_append_left (by omega), List.getElem?_take, if_pos h1, if_neg (by omega)]
  · rw [List.getElem?_append_right (by omega), hoff]
    by_cases h2 : i < off + src.length
    · rw [List.getElem?_append_left (by omega), if_pos ⟨by omega, h2⟩]
    · rw [List.getElem?_append_right (by omega), List.getElem?_drop, if_neg (by omega)]
      congr 1
      omega

/-- Writing nothing changes nothing. -/
@[simp] theorem patch_nil (dst : List α) (off : Nat) : patch dst off [] = dst := by
  simp [patch]

/-- What was written is read back. -/
theorem slice_patch_self {dst src : List α} {off : Nat} (h : off + src.length ≤ dst.length) :
    slice (patch dst off src) off src.length = src := by
  apply List.ext_getElem?
  intro i
  rw [getElem?_slice, getElem?_patch h]
  split
  · rw [if_pos (by omega)]
    congr 1
    omega
  · rw [List.getElem?_eq_none (by omega)]

/-- Writing side by side is writing once. -/
theorem patch_patch_append {d a b : List α} {off : Nat} (h : off + (a.length + b.length) ≤ d.length) :
    patch (patch d off a) (off + a.length) b = patch d off (a ++ b) := by
  have h1 : off + a.length ≤ d.length := by omega
  apply List.ext_getElem?
  intro i
  rw [getElem?_patch (by rw [length_patch h1]; omega), getElem?_patch h1,
    getElem?_patch (by rw [List.length_append]; omega), List.length_append]
  by_cases hb : off + a.length ≤ i ∧ i < off + a.length + b.length
  · rw [if_pos hb, if_pos (by omega), List.getElem?_append_right (by omega)]
    congr 1
    omega
  · rw [if_neg hb]
    by_cases ha : off ≤ i ∧ i < off + a.length
    · rw [if_pos ha, if_pos (by omega), List.getElem?_append_left (by omega)]
    · rw [if_neg ha, if_neg (by omega)]

/-- A slice that was written over as a whole does not depend on what was there. -/
theorem slice_patch_of_subset {dst src : List α} {off a n : Nat} (h : off + src.length ≤ dst.length)
    (ha : off ≤ a) (hn : a + n ≤ off + src.length) :
    slice (patch dst off src) a n = slice src (a - off) n := by
  apply List.ext_getElem?
  intro i
  rw [getElem?_slice, getElem?_slice]
  by_cases hi : i < n
  · rw [if_pos hi, if_pos hi, getElem?_patch h, if_pos (by omega)]
    congr 1
    omega
  · rw [if_neg hi, if_neg hi]

/-- A slice that was not written over as a whole depends on what was there. -/
theorem slice_patch_ne {x y : α} (hxy : x ≠ y) {src : List α} {N off a n : Nat}
    (h : off + src.length ≤ N) (hN : a + n ≤ N) (hn : 0 < n)
    (hout : ¬ (off ≤ a ∧ a + n ≤ off + src.length)) :
    slice (patch (List.replicate N x) off src) a n ≠ slice (patch (List.replicate N y) off src) a n := by
  obtain ⟨i, hi, hout⟩ : ∃ i, i < n ∧ ¬ (off ≤ a + i ∧ a + i < off + src.length) := by
    by_cases h0 : off ≤ a ∧ a < off + src.length
    · exact ⟨n - 1, by omega, by omega⟩
    · exact ⟨0, hn, by omega⟩
  intro heq
  have hi' := congrArg (fun l : List α => l[i]?) heq
  simp only [getElem?_slice, if_pos hi] at hi'
  rw [getElem?_patch (by rwa [List.length_replicate]), if_neg hout,
    getElem?_patch (by rwa [List.length_replicate]), if_neg hout,
    List.getElem?_replicate, if_pos (by omega), List.getElem?_replicate, if_pos (by omega)] at hi'
  exact hxy (Option.some.inj hi')

/-! ### Frames -/

/-- Every entry outside `W` is unchanged from `s` to `t`. -/
def Frame (s t : List α) (W : Nat → Prop) : Prop :=
  t.length = s.length ∧ ∀ k, ¬ W k → t[k]? = s[k]?

theorem Frame.refl (s : List α) (W : Nat → Prop) : Frame s s W := ⟨rfl, fun _ _ => rfl⟩

theorem Frame.trans {s t u : List α} {W₁ W₂ : Nat → Prop} (h₁ : Frame s t W₁) (h₂ : Frame t u W₂) :
    Frame s u (fun k => W₁ k ∨ W₂ k) := by
  refine ⟨h₂.1.trans h₁.1, ?_⟩
  intro k hk
  rw [h₂.2 k (fun h => hk (Or.inr h)), h₁.2 k (fun h => hk (Or.inl h))]

theorem Frame.mono {s t : List α} {W W' : Nat → Prop} (h : Frame s t W) (hW : ∀ k, W k → W' k) :
    Frame s t W' :=
  ⟨h.1, fun k hk => h.2 k fun hw => hk (hW k hw)⟩

theorem frame_patch {dst src : List α} {off : Nat} (h : off + src.length ≤ dst.length) :
    Frame dst (patch dst off src) (fun k => off ≤ k ∧ k < off + src.length) :=
  ⟨length_patch h, fun k hk => by rw [getElem?_patch h, if_neg hk]⟩

theorem Frame.slice_eq {s t : List α} {W : Nat → Prop} (h : Frame s t W) {a n : Nat}
    (hW : ∀ k, a ≤ k → k < a + n → ¬ W k) : slice t a n = slice s a n := by
  apply List.ext_getElem?
  intro i
  rw [getElem?_slice, getElem?_slice]
  split
  · exact h.2 _ (hW _ (by omega) (by omega))
  · rfl

/-- The `i`-th of `n` rows of `w` entries ends among them. -/
theorem row_add_le {i n w : Nat} (hi : i < n) : i * w + w ≤ n * w := by
  have h : (i + 1) * w ≤ n * w := Nat.mul_le_mul_right w hi
  rwa [Nat.add_mul, Nat.one_mul] at h

end Slices

/-! ## Little-endian numbers -/

/-- The number a byte string spells, least significant byte first. -/
def leNat : List UInt8 → Nat
  | [] => 0
  | b :: bs => b.toNat + 256 * leNat bs

/-- The `w` low bytes of `n`, least significant first. -/
def leBytes : Nat → Nat → List UInt8
  | 0, _ => []
  | w + 1, n => UInt8.ofNat n :: leBytes w (n / 256)

@[simp] theorem length_leBytes (w n : Nat) : (leBytes w n).length = w := by
  induction w generalizing n with
  | zero => rfl
  | succ w ih => rw [leBytes, List.length_cons, ih]

theorem leNat_lt (bs : List UInt8) : leNat bs < 256 ^ bs.length := by
  induction bs with
  | nil => decide
  | cons b bs ih =>
    have hb : b.toNat < 256 := b.toNat_lt
    rw [leNat, List.length_cons, pow_succ]
    omega

theorem leNat_leBytes (w n : Nat) : leNat (leBytes w n) = n % 256 ^ w := by
  induction w generalizing n with
  | zero => rw [leBytes, leNat, pow_zero, Nat.mod_one]
  | succ w ih =>
    rw [leBytes, leNat, ih, pow_succ', Nat.mod_mul]
    simp

theorem leBytes_leNat (bs : List UInt8) : leBytes bs.length (leNat bs) = bs := by
  induction bs with
  | nil => rfl
  | cons b bs ih =>
    have hb : b.toNat < 256 := b.toNat_lt
    rw [List.length_cons, leBytes, leNat, show (b.toNat + 256 * leNat bs) / 256 = leNat bs by omega, ih]
    congr 1
    apply UInt8.toNat_inj.mp
    rw [UInt8.toNat_ofNat']
    omega

/-- A byte string that does not spell zero has a byte other than zero among as many as it spells. -/
theorem exists_ne_zero_of_leNat {bs : List UInt8} (h : leNat bs ≠ 0) :
    ∃ j b, j < leNat bs ∧ bs[j]? = some b ∧ b ≠ 0 := by
  induction bs with
  | nil => exact absurd rfl h
  | cons b bs ih =>
    rw [leNat] at h ⊢
    by_cases hb : b = 0
    · have h0 : b.toNat = 0 := by rw [hb]; rfl
      obtain ⟨j, x, hj, hx, hne⟩ := ih (by omega)
      exact ⟨j + 1, x, by omega, hx, hne⟩
    · have h0 : b.toNat ≠ 0 := fun h0 => hb (UInt8.toNat_inj.mp h0)
      exact ⟨0, b, by omega, rfl, hb⟩

end ByteSeq
