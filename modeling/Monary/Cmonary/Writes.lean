import Monary.Cmonary.Mask

/-!
# What a load writes

* `columnWrites`, `monaryBsonToArraysWrites` : the copies that `monary_bson_to_arrays` makes, with the offsets it
  computes for them; `loadColumn_eq_resolved`, `loadResolved_eq_copy` : a turn of its loop makes the copy, and
  then writes the mask;
* `ColumnItem.Measurable` : the columns whose turn comes to its writes, `columnWrites_ok_iff`;
* `RowBound`, `rowBound_iff` : the guard of the function lets row `num_rows` through, and behind it a row from
  `2^31` on is a negative `int` to the loaders.
-/

namespace Monary
open ByteSeq CInt

/-- A storage for `n` rows of the column's type and a mask of `n` bytes. -/
structure ColumnItem.Owns (c : ColumnItem) (n : Nat) : Prop where
  width_lt : c.typeArg < 2 ^ 32
  storage_eq : ∃ s, c.storage = some s ∧
    ∀ t, MonaryType.ofCode c.type = some t → s.length = n * t.itemSize c.typeArg
  mask_eq : ∃ m, c.mask = some m ∧ m.length = n

/-! ## The copies of a turn -/

inductive Target where
  | storage
  | mask
  deriving DecidableEq, Repr

/-- A copy of `src` to `off` bytes behind the start of an array. -/
structure Write where
  target : Target
  off : Int
  src : Bytes
  deriving DecidableEq, Repr

def ColumnItem.array (c : ColumnItem) : Target → Option Bytes
  | .storage => c.storage
  | .mask => c.mask

/-- No byte is written outside the array. -/
def Write.Inside (c : ColumnItem) (w : Write) : Prop :=
  ∀ k : Int, w.off ≤ k → k < w.off + w.src.length → 0 ≤ k ∧ k < ((c.array w.target).getD []).length

section Copies
variable [CImpl]

/-- The offset and the bytes of the copy that `monary_load_item` makes, `none` where it returns 0. -/
def loadCopy (it : BsonIter) (c : ColumnItem) (idx : Int) : C (Option (Int × Bytes)) :=
  match MonaryType.ofCode c.type with
  | none => .ok none
  | some t =>
    match payload t c.typeArg it with
    | .error f => .error f
    | .ok none => .ok none
    | .ok (some src) =>
      match destOffset t c.typeArg idx src.length with
      | none => .error .undefined
      | some off => .ok (some (off, src))

omit [CImpl] in
/-- `if (citem->mask != NULL) citem->mask[row] = !success`. -/
def maskWrites (c : ColumnItem) (row : Nat) (success : Bool) : List Write :=
  if c.mask = none then [] else [⟨.mask, row, [if success then 0 else 1]⟩]

/-- The copy of the element that the path of the column leads to. -/
def columnCopy (row : Nat) (bson : Bson) (c : ColumnItem) : C (Option (Int × Bytes)) :=
  match resolve c bson with
  | some descendant => loadCopy descendant c (toInt32 row)
  | none => .ok none

/-- The copies of a turn of the loop over the columns. -/
def columnWrites (row : Nat) (bson : Bson) (c : ColumnItem) : C (List Write) :=
  if c.field = none then .error .undefined
  else
    (columnCopy row bson c).map fun copy =>
      (copy.map fun (off, src) => ⟨.storage, off, src⟩).toList ++ maskWrites c row copy.isSome

/-- The copies of the loop. A turn that comes to no end ends the program before it writes. -/
def loopWrites (row : Nat) (bson : Bson) : List ColumnItem → List (ColumnItem × Write)
  | [] => []
  | c :: cs =>
    match columnWrites row bson c with
    | .error _ => []
    | .ok ws => ws.map (c, ·) ++ loopWrites row bson cs

/-- The copies of `monary_bson_to_arrays`. -/
def monaryBsonToArraysWrites (cd : ColumnData) (row : Nat) (bson : Bson) : List (ColumnItem × Write) :=
  if row > cd.numRows then [] else loopWrites row bson cd.columns

/-- What `monary_load_item` does is its copy. -/
theorem monaryLoadItem_eq_copy (e : Element) {c : ColumnItem} (hw : c.typeArg < 2 ^ 32) (idx : Int) :
    monaryLoadItem e.iter c idx = loadCopy e.iter c idx >>= fun copy =>
      match copy with
      | none => .ok none
      | some (off, src) => (memcpyTo c.storage off src).map some := by
  unfold loadCopy
  rcases ht : MonaryType.ofCode c.type with _ | t
  · unfold monaryLoadItem
    rw [ht]
    rfl
  · rw [monaryLoadItem_eq e ht hw]
    dsimp only
    rcases payload t c.typeArg e.iter with f | (_ | src)
    · rfl
    · rfl
    · show transfer t c idx (some src) = _
      unfold transfer
      dsimp only
      rcases destOffset t c.typeArg idx src.length with _ | off <;> rfl

/-- `success = monary_load_item (&descendant, citem, row)`, where the path of the column leads to an element. -/
def loadResolved (row : Nat) (bson : Bson) (c : ColumnItem) : C (Option Bytes) :=
  match resolve c bson with
  | some descendant => monaryLoadItem descendant c (toInt32 row)
  | none => .ok none

theorem loadResolved_eq_copy {c : ColumnItem} (hw : c.typeArg < 2 ^ 32) (row : Nat) (bson : Bson) :
    loadResolved row bson c = columnCopy row bson c >>= fun copy =>
      match copy with
      | none => .ok none
      | some (off, src) => (memcpyTo c.storage off src).map some := by
  unfold loadResolved columnCopy
  rcases hit : resolve c bson with _ | it
  · rfl
  · obtain ⟨e, rfl⟩ := resolve_element hit
    exact monaryLoadItem_eq_copy e hw _

/-- The body of the loop, with the load and the mask apart. -/
theorem loadColumn_eq_resolved (row : Nat) (bson : Bson) {c : ColumnItem} (hf : c.field ≠ none) :
    loadColumn row bson c = loadResolved row bson c >>= fun loaded =>
      (setMask c.mask row loaded.isSome).map fun mask =>
        ({ c with storage := loaded.orElse fun _ => c.storage, mask := mask }, loaded.isSome) := by
  have hmap (loaded : Option Bytes) :
      (do let mask ← setMask c.mask row loaded.isSome
          return ({ c with storage := loaded.orElse fun _ => c.storage, mask := mask }, loaded.isSome) :
        C (ColumnItem × Bool)) = (setMask c.mask row loaded.isSome).map fun mask =>
          ({ c with storage := loaded.orElse fun _ => c.storage, mask := mask }, loaded.isSome) := by
    rcases setMask c.mask row loaded.isSome with f | m <;> rfl
  unfold loadColumn loadResolved
  rw [if_neg hf]
  rcases resolve c bson with _ | it
  · exact hmap none
  · dsimp only
    rcases monaryLoadItem it c (toInt32 row) with f | loaded
    · rfl
    · exact hmap loaded

/-! ## The turns that come to their writes -/

/-- A column with a name that, if it is a `length` column, meets no code value and no string whose characters lead
past its NUL. -/
def ColumnItem.Measurable (c : ColumnItem) (bson : Bson) : Prop :=
  c.field ≠ none ∧ (MonaryType.ofCode c.type = some .length → ∀ it, resolve c bson = some it →
    it.bsonType ≠ some .code ∧ (it.bsonType = some .utf8 → CharsEnd (it.ptr it.d2)))

/-- The offset in the storage for `len` bytes of row `row`; from `2^31` on the row is a negative `int`. -/
def ColumnItem.offset (c : ColumnItem) (row len : Nat) : Int :=
  if row < 2 ^ 31 then c.place row len else ((row : Int) - 2 ^ 32) * c.itemSize

variable {c : ColumnItem} {row : Nat} {bson : Bson}

omit [CImpl] in
theorem width_eq_zero {w : Nat} (h31 : 2 ^ 31 ≤ row) (hmul : row * w < 2 ^ 31) : w = 0 := by
  by_contra h
  have := Nat.le_mul_of_pos_right row (Nat.pos_of_ne_zero h)
  omega

/-- The offset that the loaders compute. -/
theorem destOffset_eq_offset {t : MonaryType} {e : Element} {src : Bytes} (ht : MonaryType.ofCode c.type = some t)
    (hw : c.typeArg < 2 ^ 32) (h32 : row < 2 ^ 32) (hmul : row * c.typeArg < 2 ^ 31)
    (hp : payload t c.typeArg e.iter = .ok (some src)) :
    destOffset t c.typeArg (toInt32 row) src.length = some (c.offset row src.length) := by
  unfold ColumnItem.offset
  by_cases h31 : row < 2 ^ 31
  · rw [if_pos h31, toInt32_natCast h31, ColumnItem.place, ht]
    exact destOffset_of_clean hw (clean_of_payload hp (fun _ _ => hmul) fun _ _ => hmul) hp
  · have h0 := width_eq_zero (by omega) hmul
    have hle := length_payload_le hp
    rw [if_neg h31, toInt32_natCast_of_le (by omega) h32, ColumnItem.itemSize, ht]
    dsimp only
    rw [h0] at hle ⊢
    cases t
    case string | binary =>
      show mulInt32 _ (toInt32 ((0 : Nat) : Int)) = some (_ * ((0 : Nat) : Int))
      rw [toInt32_natCast (by decide), mulInt32_eq_some]
      simp
    case bson =>
      obtain hlen : src.length = 0 := Nat.le_zero.mp hle
      show some ((toUInt32 (_ * (src.length : Int)) : Nat) : Int) = some (_ * ((0 : Nat) : Int))
      rw [hlen]
      simp [toUInt32]
    all_goals rfl

/-- The copy that a measurable column makes. -/
theorem columnCopy_eq (hw : c.typeArg < 2 ^ 32) (h32 : row < 2 ^ 32) (hmul : row * c.typeArg < 2 ^ 31)
    (hm : c.Measurable bson) :
    columnCopy row bson c = .ok ((cellPayload c bson).map fun src => (c.offset row src.length, src)) := by
  unfold columnCopy
  rcases hit : resolve c bson with _ | it
  · rw [cellPayload_of_resolve_none hit]
    rfl
  · obtain ⟨e, rfl⟩ := resolve_element hit
    unfold loadCopy cellPayload
    rcases ht : MonaryType.ofCode c.type with _ | t
    · rfl
    · obtain ⟨p, hp⟩ : ∃ p, payload t c.typeArg e.iter = .ok p := by
        have hclean : Clean t c.typeArg 0 e.iter := by
          refine ⟨?_, ?_, by simp, by simp⟩
          · rintro rfl
            exact (hm.2 ht _ hit).1
          · rintro rfl
            exact (hm.2 ht _ hit).2
        exact exists_payload_of_clean hclean
      rw [hit]
      dsimp only [Option.bind_eq_bind, Option.bind_some]
      rw [hp]
      rcases p with _ | src
      · rfl
      · dsimp only
        rw [destOffset_eq_offset ht hw h32 hmul hp]
        rfl

theorem columnWrites_eq (hw : c.typeArg < 2 ^ 32) (h32 : row < 2 ^ 32) (hmul : row * c.typeArg < 2 ^ 31)
    (hm : c.Measurable bson) :
    columnWrites row bson c = .ok (((cellPayload c bson).map fun src =>
      ⟨.storage, c.offset row src.length, src⟩).toList ++ maskWrites c row (cellPayload c bson).isSome) := by
  unfold columnWrites
  rw [if_neg hm.1, columnCopy_eq hw h32 hmul hm]
  rcases cellPayload c bson with _ | src <;> rfl

theorem columnWrites_ok_iff (hw : c.typeArg < 2 ^ 32) (h32 : row < 2 ^ 32) (hmul : row * c.typeArg < 2 ^ 31) :
    (∃ ws, columnWrites row bson c = .ok ws) ↔ c.Measurable bson := by
  constructor
  · rintro ⟨ws, h⟩
    unfold columnWrites at h
    by_cases hf : c.field = none
    · rw [if_pos hf] at h
      cases h
    · refine ⟨hf, ?_⟩
      intro ht it hit
      rw [if_neg hf, columnCopy, hit] at h
      apply (lengthValue_ok_iff it).mp
      unfold loadCopy at h
      rw [ht] at h
      dsimp only at h
      rcases hp : payload .length c.typeArg it with f | p <;> rw [hp] at h
      · cases h
      · exact lengthValue_of_payload hp
  · intro hm
    exact ⟨_, columnWrites_eq hw h32 hmul hm⟩

/-- A column with a value is measurable. -/
theorem measurable_of_cellPayload {src : Bytes} (h : cellPayload c bson = some src) : c.Measurable bson := by
  obtain ⟨t, e, ht, hit, hp⟩ := cellPayload_known h
  refine ⟨?_, ?_⟩
  · intro hf
    rw [resolve, hf] at hit
    cases hit
  · intro ht' it hit'
    obtain rfl : t = .length := Option.some.inj (ht.symm.trans ht')
    obtain rfl : e.iter = it := Option.some.inj (hit.symm.trans hit')
    exact (lengthValue_ok_iff _).mp (lengthValue_of_payload hp)

/-! ## The copies and the arrays -/

/-- The document has no byte for the column. -/
def ColumnItem.StoresNothing (c : ColumnItem) (bson : Bson) : Prop :=
  ∀ src, cellPayload c bson = some src → src = []

/-- The offset lies in the storage, unless there is something to write and the row is a negative `int`. -/
theorem offset_bounds {n : Nat} {src : Bytes} (hc : c.Owns n) (hrow : row < n) (hmul : row * c.typeArg < 2 ^ 31)
    (hp : cellPayload c bson = some src) (h : row < 2 ^ 31 ∨ src = []) :
    0 ≤ c.offset row src.length ∧ c.offset row src.length + src.length ≤ ((c.storage.getD []).length : Int) := by
  obtain ⟨t, e, ht, -, hpay⟩ := cellPayload_known hp
  obtain ⟨s, hs, hlen⟩ := hc.storage_eq
  rw [hs, Option.getD_some, hlen t ht, ColumnItem.offset]
  by_cases h31 : row < 2 ^ 31
  · have hle := place_add_le hrow (length_payload_le hpay)
    rw [if_pos h31, ColumnItem.place, ht]
    dsimp only
    omega
  · obtain rfl := h.resolve_left h31
    have h0 := width_eq_zero (by omega) hmul
    have hsized : t.sized = true := by
      by_contra hs
      have hl := length_payload (by simpa using hs) hpay
      have hpos := t.itemSize_pos (w := c.typeArg) fun h => absurd h hs
      rw [List.length_nil] at hl
      omega
    rw [if_neg h31, ColumnItem.itemSize, ht]
    dsimp only
    rw [MonaryType.itemSize_of_sized hsized, h0]
    simp

theorem offset_neg {src : Bytes} (h31 : 2 ^ 31 ≤ row) (h32 : row < 2 ^ 32) (hp : cellPayload c bson = some src)
    (hsrc : src ≠ []) : c.offset row src.length < 0 := by
  obtain ⟨t, e, ht, -, hpay⟩ := cellPayload_known hp
  have hpos := List.length_pos_iff.mpr hsrc
  have hle := length_payload_le hpay
  have hsize : (0 : Int) < (t.itemSize c.typeArg : Nat) := by omega
  rw [ColumnItem.offset, if_neg (by omega), ColumnItem.itemSize, ht]
  exact mul_neg_of_neg_of_pos (by omega) hsize

theorem inside_storage {n : Nat} {src : Bytes} (hc : c.Owns n) (hrow : row < n) (hmul : row * c.typeArg < 2 ^ 31)
    (hp : cellPayload c bson = some src) (h : row < 2 ^ 31 ∨ src = []) :
    Write.Inside c ⟨.storage, c.offset row src.length, src⟩ := by
  obtain ⟨h0, hle⟩ := offset_bounds hc hrow hmul hp h
  intro k hk hk'
  show 0 ≤ k ∧ k < ((c.storage.getD []).length : Int)
  dsimp only at hk hk'
  omega

theorem not_inside_storage {src : Bytes} (h31 : 2 ^ 31 ≤ row) (h32 : row < 2 ^ 32)
    (hp : cellPayload c bson = some src) (hsrc : src ≠ []) :
    ¬ Write.Inside c ⟨.storage, c.offset row src.length, src⟩ := by
  have hpos := List.length_pos_iff.mpr hsrc
  have hneg := offset_neg h31 h32 hp hsrc
  intro h
  have := (h (c.offset row src.length) (le_refl _) (by dsimp only; omega)).1
  omega

/-- A load returns unless it has something to write and the row is a negative `int`. -/
theorem loadResolved_ok_iff {n : Nat} (hc : c.Owns n) (hrow : row < n) (h32 : row < 2 ^ 32)
    (hmul : row * c.typeArg < 2 ^ 31) (hm : c.Measurable bson) :
    (∃ loaded, loadResolved row bson c = .ok loaded) ↔ row < 2 ^ 31 ∨ c.StoresNothing bson := by
  obtain ⟨s, hs, hlen⟩ := hc.storage_eq
  rw [loadResolved_eq_copy hc.width_lt, columnCopy_eq hc.width_lt h32 hmul hm]
  rcases hp : cellPayload c bson with _ | src
  · refine ⟨fun _ => Or.inr ?_, fun _ => ⟨none, rfl⟩⟩
    intro src hsrc
    rw [hp] at hsrc
    cases hsrc
  · show (∃ loaded, (memcpyTo c.storage (c.offset row src.length) src).map some = .ok loaded) ↔ _
    rw [hs]
    constructor
    · rintro ⟨loaded, h⟩
      by_contra hnot
      rw [not_or] at hnot
      apply hnot.2
      intro src' hp'
      obtain rfl : src = src' := Option.some.inj (hp.symm.trans hp')
      by_contra hsrc
      have hneg := offset_neg (by omega) h32 hp hsrc
      rcases hcopy : memcpyTo (some s) (c.offset row src.length) src with f | s' <;> rw [hcopy] at h
      · cases h
      · have := (memcpyTo_eq_ok hcopy).1
        omega
    · intro h
      have hbounds := offset_bounds hc hrow hmul hp (h.imp id fun h => h src hp)
      rw [hs, Option.getD_some] at hbounds
      rw [memcpyTo, if_pos hbounds]
      exact ⟨_, rfl⟩

/-- A load leaves the storage as long as it was. -/
theorem length_loadResolved {n : Nat} {s s' : Bytes} (hc : c.Owns n) (hs : c.storage = some s)
    (h : loadResolved row bson c = .ok (some s')) : s'.length = s.length := by
  rw [loadResolved_eq_copy hc.width_lt, hs] at h
  obtain ⟨copy, -, h⟩ := bind_eq_ok h
  rcases copy with _ | ⟨off, src⟩
  · cases h
  · dsimp only at h
    rcases hcopy : memcpyTo (some s) off src with f | d <;> rw [hcopy] at h
    · cases h
    · cases h
      obtain ⟨-, hle, rfl⟩ := memcpyTo_eq_ok hcopy
      exact length_patch hle

omit [CImpl] in
theorem inside_mask_iff {n : Nat} (hc : c.Owns n) (b : UInt8) : Write.Inside c ⟨.mask, row, [b]⟩ ↔ row < n := by
  obtain ⟨m, hm, hlen⟩ := hc.mask_eq
  have hsize : ((c.array .mask).getD []).length = n := by
    rw [ColumnItem.array, hm, Option.getD_some, hlen]
  unfold Write.Inside
  dsimp only
  rw [hsize, List.length_singleton]
  constructor
  · intro h
    have := (h row (le_refl _) (by omega)).2
    omega
  · intro h k hk hk'
    omega

/-- The copies of a turn stay in the arrays of the column. -/
theorem columnWrites_inside_iff {n : Nat} {ws : List Write} (hc : c.Owns n) (h32 : row < 2 ^ 32) (hrow : row < n)
    (hmul : row * c.typeArg < 2 ^ 31) (hws : columnWrites row bson c = .ok ws) :
    (∀ w ∈ ws, w.Inside c) ↔ row < 2 ^ 31 ∨ c.StoresNothing bson := by
  rw [columnWrites_eq hc.width_lt h32 hmul ((columnWrites_ok_iff hc.width_lt h32 hmul).mp ⟨ws, hws⟩)] at hws
  cases hws
  constructor
  · intro h
    by_contra hnot
    rw [not_or] at hnot
    apply hnot.2
    intro src hp
    by_contra hsrc
    exact not_inside_storage (by omega) h32 hp hsrc (h _ (by simp [hp]))
  · intro h w hw
    rcases List.mem_append.mp hw with hw | hw
    · rw [Option.mem_toList] at hw
      obtain ⟨src, hp, rfl⟩ := Option.map_eq_some_iff.mp hw
      exact inside_storage hc hrow hmul hp (h.imp id fun h => h src hp)
    · unfold maskWrites at hw
      split at hw
      · cases hw
      · obtain rfl := List.mem_singleton.mp hw
        exact (inside_mask_iff hc _).mpr hrow

/-! ## The guard -/

/-- The copies of the loop are those of the columns up to the first turn that comes to no end. -/
theorem mem_loopWrites {cs : List ColumnItem} {w : Write} :
    (c, w) ∈ loopWrites row bson cs ↔ ∃ before after ws, cs = before ++ c :: after ∧
      (∀ d ∈ before, ∃ ws, columnWrites row bson d = .ok ws) ∧ columnWrites row bson c = .ok ws ∧ w ∈ ws := by
  induction cs with
  | nil => simp [loopWrites]
  | cons d cs ih =>
    rw [loopWrites]
    rcases hd : columnWrites row bson d with f | ws
    · constructor
      · intro h
        cases h
      · rintro ⟨before, after, ws, hcs, hbefore, hws, -⟩
        rcases before with _ | ⟨b, before⟩
        · cases hcs
          rw [hd] at hws
          cases hws
        · cases hcs
          obtain ⟨ws', hws'⟩ := hbefore d (by simp)
          rw [hd] at hws'
          cases hws'
    · dsimp only
      rw [List.mem_append, ih]
      constructor
      · rintro (h | ⟨before, after, ws', rfl, hbefore, hws', hw⟩)
        · obtain ⟨w', hw', heq⟩ := List.mem_map.mp h
          cases heq
          exact ⟨[], cs, ws, rfl, by simp, hd, hw'⟩
        · refine ⟨d :: before, after, ws', rfl, ?_, hws', hw⟩
          intro b hb
          rcases List.mem_cons.mp hb with rfl | hb
          · exact ⟨ws, hd⟩
          · exact hbefore b hb
      · rintro ⟨before, after, ws', hcs, hbefore, hws', hw⟩
        rcases before with _ | ⟨b, before⟩
        · cases hcs
          rw [hd] at hws'
          cases hws'
          exact Or.inl (List.mem_map.mpr ⟨w, hw, rfl⟩)
        · cases hcs
          exact Or.inr ⟨before, after, ws', rfl, fun x hx => hbefore x (by simp [hx]), hws', hw⟩

/-- The function returns -1 and changes nothing. -/
def Refused (cd : ColumnData) (row : Nat) (bson : Bson) : Prop :=
  monaryBsonToArrays (some cd) row (some bson) = .ok (some cd, -1)

/-- Every row that is not one of the arrays is refused, and what is not refused is written inside the arrays. -/
structure RowBound (cd : ColumnData) (row : Nat) (bson : Bson) : Prop where
  refused : cd.numRows ≤ row → Refused cd row bson
  inside : Refused cd row bson ∨ ∀ p ∈ monaryBsonToArraysWrites cd row bson, p.2.Inside p.1

/-- No column that the loop comes to stores a byte. -/
def NothingStored (cs : List ColumnItem) (bson : Bson) : Prop :=
  ∀ before c after, cs = before ++ c :: after → (∀ d ∈ before, d.Measurable bson) → c.StoresNothing bson

/-- Only a row above `num_rows` is refused. -/
theorem refused_iff {cd : ColumnData} : Refused cd row bson ↔ cd.numRows < row := by
  unfold Refused monaryBsonToArrays
  dsimp only
  constructor
  · intro h
    by_contra hle
    rw [if_neg (by omega)] at h
    obtain ⟨cs, -, h⟩ := bind_eq_ok h
    have hcount := congrArg Prod.snd (Except.ok.inj h)
    dsimp only at hcount
    omega
  · intro h
    rw [if_pos h]
    rfl

/-- The rows that are handled: those of the arrays, but from `2^31` on only while nothing is stored. -/
theorem rowBound_iff {cd : ColumnData} (hcd : ∀ c ∈ cd.columns, c.Owns cd.numRows)
    (hmul : ∀ c ∈ cd.columns, cd.numRows * c.typeArg < 2 ^ 31) (h32 : row < 2 ^ 32) :
    RowBound cd row bson ↔
      row ≠ cd.numRows ∧ (row < cd.numRows → 2 ^ 31 ≤ row → NothingStored cd.columns bson) := by
  have hproduct (hrow : row < cd.numRows) (c : ColumnItem) (hc : c ∈ cd.columns) : row * c.typeArg < 2 ^ 31 :=
    (Nat.mul_le_mul_right _ (Nat.le_of_lt hrow)).trans_lt (hmul c hc)
  constructor
  · intro h
    refine ⟨?_, ?_⟩
    · rintro rfl
      exact absurd (refused_iff.mp (h.refused (le_refl _))) (lt_irrefl _)
    · intro hrow h31 before c after hcs hbefore src hp
      have hmem : c ∈ cd.columns := by simp [hcs]
      have hm := measurable_of_cellPayload hp
      obtain ⟨ws, hws⟩ := (columnWrites_ok_iff (hcd c hmem).width_lt h32 (hproduct hrow c hmem)).mpr hm
      have hinside : ∀ w ∈ ws, w.Inside c := by
        intro w hw
        rcases h.inside with hr | hall
        · exact absurd (refused_iff.mp hr) (by omega)
        · apply hall (c, w)
          rw [monaryBsonToArraysWrites, if_neg (by omega), mem_loopWrites]
          refine ⟨before, after, ws, hcs, ?_, hws, hw⟩
          intro d hd
          have hdmem : d ∈ cd.columns := by simp [hcs, hd]
          exact (columnWrites_ok_iff (hcd d hdmem).width_lt h32 (hproduct hrow d hdmem)).mpr (hbefore d hd)
      have hor := (columnWrites_inside_iff (hcd c hmem) h32 hrow (hproduct hrow c hmem) hws).mp hinside
      exact hor.resolve_left (by omega) src hp
  · rintro ⟨hne, hstored⟩
    refine ⟨fun hle => refused_iff.mpr (by omega), ?_⟩
    by_cases hrow : cd.numRows < row
    · exact Or.inl (refused_iff.mpr hrow)
    · right
      rintro ⟨c, w⟩ hp
      rw [monaryBsonToArraysWrites, if_neg hrow, mem_loopWrites] at hp
      obtain ⟨before, after, ws, hcs, hbefore, hws, hw⟩ := hp
      have hmem : c ∈ cd.columns := by simp [hcs]
      have hlt : row < cd.numRows := by omega
      refine (columnWrites_inside_iff (hcd c hmem) h32 hlt (hproduct hlt c hmem) hws).mpr ?_ w hw
      by_cases h31 : row < 2 ^ 31
      · exact Or.inl h31
      · refine Or.inr (hstored hlt (by omega) before c after hcs ?_)
        intro d hd
        have hdmem : d ∈ cd.columns := by simp [hcs, hd]
        exact (columnWrites_ok_iff (hcd d hdmem).width_lt h32 (hproduct hlt d hdmem)).mp (hbefore d hd)

end Copies

theorem ColumnItem.Holds.owns {c : ColumnItem} {t : MonaryType} {n : Nat} (h : c.Holds t n) : c.Owns n := by
  obtain ⟨s, hs, hlen⟩ := h.storage_eq
  refine ⟨h.width_lt, ⟨s, hs, ?_⟩, h.mask_eq⟩
  intro t' ht'
  obtain rfl : t = t' := Option.some.inj (h.type_eq.symm.trans ht')
  exact hlen

theorem boolColumns_owns : ∀ c ∈ boolColumns.columns, c.Owns boolColumns.numRows := by
  intro c hc
  obtain ⟨t, ht⟩ := boolColumns_holds.columns c hc
  exact ht.owns

/-- A `bool` column on `d` of one row is written behind its mask when a document goes to row 1. -/
theorem not_forall_rowBound :
    ¬ ∀ (cd : ColumnData) (row : Nat) (bson : Bson), (∀ c ∈ cd.columns, c.Owns cd.numRows) →
      (∀ c ∈ cd.columns, cd.numRows * c.typeArg < 2 ^ 31) → row < 2 ^ 32 → @RowBound CImpl.x86 cd row bson := by
  intro h
  let _ := CImpl.x86
  have hbound := h boolColumns 1 emptyDocument boolColumns_owns (by decide) (by decide)
  rcases hbound.inside with hr | hall
  · exact absurd (refused_iff.mp hr) (by decide)
  · let c : ColumnItem := ⟨some [0x64], MonaryType.bool.code, 0, some [0], some [1]⟩
    have hwrites : columnWrites 1 emptyDocument c = .ok [⟨.storage, 1, [0]⟩, ⟨.mask, 1, [0]⟩] := by decide
    have hmask := hall (c, ⟨.mask, 1, [0]⟩) (by
      rw [monaryBsonToArraysWrites, if_neg (by decide), mem_loopWrites]
      exact ⟨[], [], _, rfl, by simp, hwrites, by simp⟩)
    exact absurd ((inside_mask_iff (boolColumns_owns _ (by decide)) 0).mp hmask) (by decide)

/-- Row 0 of the same column is bounded. -/
theorem rowBound_boolColumns : @RowBound CImpl.x86 boolColumns 0 emptyDocument :=
  (@rowBound_iff CImpl.x86 _ _ _ boolColumns_owns (by decide) (by decide)).mpr ⟨by decide, by intro _ h; omega⟩

end Monary
