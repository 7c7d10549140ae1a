import Derivgrind.IR.Semantics

/-!
# Derivgrind.Nulgrind.ShadowMemory

The tangent store of `nl_main.c`: the shadow map `my_sm`, one shadow byte per client byte,
and the dirty helpers `nl_Store_diff` / `nl_Load_diff` that the instrumented code calls to
move an 8-byte tangent (`ULong`) in and out of it.

The shadow-memory library itself (`shadow_initialize_map`, `shadow_set_bits`,
`shadow_get_bits`) is not part of the repository; it is modelled from the spec, whose
contract is a byte map in which unwritten addresses read back as zero.

Main results:
* `nlStoreDiff_apply`, `nlLoadDiff_apply` — what one helper call does, byte by byte;
* `nlLoadDiff_storeRun` — after any sequence of overlapping stores of any sizes, each byte
  a load returns comes from the last store that covered it, or from the map before;
* `nlLoadDiff_nlInitialMap` — the map `nl_pre_clo_init` leaves is not all zero.
-/

namespace Derivgrind

/-- The shadow map `my_sm`: one shadow byte for each client address. -/
abbrev ShadowMap := Addr → UInt8

/-- Modelled from the spec: `shadow_initialize_map` of the shadow-memory library, absent
from the repository; "unwritten addresses read back as a distinguished zero value". -/
def shadowInitializeMap : ShadowMap := fun _ => 0

/-- Modelled from the spec: `shadow_set_bits`, writing one shadow byte. -/
def shadowSetBits (sm : ShadowMap) (a : Addr) (b : UInt8) : ShadowMap :=
  Function.update sm a b

/-- Modelled from the spec: `shadow_get_bits`, reading one shadow byte. -/
def shadowGetBits (sm : ShadowMap) (a : Addr) : UInt8 := sm a

/-- The object representation of a C `ULong`: its eight bytes, least significant first,
as the helpers access them through `(U8*)&derivative + i`. -/
abbrev ULong := Fin 8 → UInt8

/-- Byte `i` of a `ULong` (`*((U8*)&u + i)`), for `i < 8`. -/
def ULong.byte (u : ULong) (i : Nat) : UInt8 := if h : i < 8 then u ⟨i, h⟩ else 0

/-- Overwrite byte `i` of a `ULong` (`*((U8*)&u + i) = b`). -/
def ULong.setByte (u : ULong) (i : Nat) (b : UInt8) : ULong :=
  fun k => if k.val = i then b else u k

/-- The `ULong` whose bytes are the first eight of a list, zero-padded. -/
def ULong.ofList (bs : List UInt8) : ULong := fun i => bs.getD i 0

/-- The eight bytes of a `ULong` as a list. -/
def ULong.toList (u : ULong) : List UInt8 := List.ofFn u

/-- `nl_pre_clo_init`: a fresh map, then `shadow_set_bits(my_sm, 0xffff1111, 0xab)`
(commented `// spam` in the source). -/
def nlInitialMap : ShadowMap := shadowSetBits shadowInitializeMap 0xffff1111 0xab

/-- `nl_Store_diff(addr, derivative, size)`: byte `i` of `derivative` goes to shadow
address `addr + i`, for `i < size`. -/
def nlStoreDiff (sm : ShadowMap) (addr : Addr) (derivative : ULong) (size : Nat) : ShadowMap :=
  (List.range size).foldl
    (fun sm i => shadowSetBits sm (addr + BitVec.ofNat 64 i) (derivative.byte i)) sm

/-- `nl_Load_diff(addr, size)`: start from `0`, fetch bytes `0, ..., size-1` from shadow
addresses `addr + i`, then clear bytes `size, ..., 7`. -/
def nlLoadDiff (sm : ShadowMap) (addr : Addr) (size : Nat) : ULong :=
  let derivative : ULong := fun _ => 0
  let derivative := (List.range size).foldl
    (fun d i => d.setByte i (shadowGetBits sm (addr + BitVec.ofNat 64 i))) derivative
  (List.range' size (8 - size)).foldl (fun d i => d.setByte i 0) derivative

/-! ## One helper call -/

theorem foldl_setByte_range (f : Nat → UInt8) (d : ULong) (n : Nat) (k : Fin 8) :
    (List.range n).foldl (fun d i => d.setByte i (f i)) d k =
      if k.val < n then f k.val else d k := by
  induction n generalizing d with
  | zero => simp
  | succ n ih =>
    rw [List.range_succ, List.foldl_append, List.foldl_cons, List.foldl_nil]
    simp only [ULong.setByte, ih]
    by_cases h : k.val = n
    · simp [h]
    · have hk : k.val < n + 1 ↔ k.val < n := by omega
      simp only [h, hk, if_false]

theorem foldl_setByte_range' (d : ULong) (s n : Nat) (k : Fin 8) :
    (List.range' s n).foldl (fun d i => d.setByte i 0) d k =
      if s ≤ k.val ∧ k.val < s + n then 0 else d k := by
  induction n generalizing d with
  | zero => rw [if_neg (by omega)]; rfl
  | succ n ih =>
    rw [List.range'_concat, List.foldl_append, List.foldl_cons, List.foldl_nil]
    simp only [ULong.setByte, ih]
    by_cases h : k.val = s + 1 * n
    · rw [if_pos h, if_pos (by omega)]
    · have hk : s ≤ k.val ∧ k.val < s + (n + 1) ↔ s ≤ k.val ∧ k.val < s + n := by omega
      simp only [if_neg h, hk]

/-- The bytes `nl_Load_diff` returns: the shadow bytes at `addr, ..., addr + size - 1`,
then zeros. -/
theorem nlLoadDiff_apply (sm : ShadowMap) (addr : Addr) (size : Nat) (k : Fin 8) :
    nlLoadDiff sm addr size k =
      if k.val < size then sm (addr + BitVec.ofNat 64 k.val) else 0 := by
  simp only [nlLoadDiff, foldl_setByte_range', foldl_setByte_range, shadowGetBits]
  by_cases h : k.val < size
  · rw [if_neg (by omega), if_pos h]
  · rw [if_pos (by omega), if_neg h]

/-- `nl_Load_diff` as a byte list: the `size` shadow bytes from `addr` on, then zeros. -/
theorem nlLoadDiff_toList (sm : ShadowMap) (addr : Addr) {size : Nat} (hs : size ≤ 8) :
    (nlLoadDiff sm addr size).toList = readBytes sm addr size ++ List.replicate (8 - size) 0 := by
  apply List.ext_getElem
  · simp [ULong.toList]; omega
  · intro k h₁ h₂
    simp only [ULong.toList, List.getElem_ofFn] at h₁ ⊢
    rw [nlLoadDiff_apply]
    simp only [List.getElem_append, length_readBytes]
    split_ifs with hk
    · rw [getElem_readBytes]
    · simp

/-- The shadow map after `nl_Store_diff`: the `size` bytes from `addr` on (wrapping) hold
the bytes of `derivative`, every other byte is unchanged. -/
theorem nlStoreDiff_apply (sm : ShadowMap) (addr : Addr) (derivative : ULong) {size : Nat}
    (hs : size ≤ 8) (x : Addr) :
    nlStoreDiff sm addr derivative size x =
      if (x - addr).toNat < size then derivative.byte (x - addr).toNat else sm x := by
  induction size with
  | zero => simp [nlStoreDiff]
  | succ n ih =>
    simp only [nlStoreDiff] at ih ⊢
    rw [List.range_succ, List.foldl_append, List.foldl_cons, List.foldl_nil, shadowSetBits,
      Function.update_apply, ih (by omega)]
    by_cases hx : x = addr + BitVec.ofNat 64 n
    · have hn : (x - addr).toNat = n := by subst hx; bv_omega
      rw [if_pos hx, hn, if_pos (Nat.lt_succ_self n)]
    · have hn : (x - addr).toNat < n + 1 ↔ (x - addr).toNat < n := by
        constructor
        · intro h; by_contra h'; exact hx (by bv_omega)
        · omega
      simp only [if_neg hx, hn]

/-! ## Runs of stores -/

/-- One call `nl_Store_diffN(addr, v)`; the helpers exist for `N` in `{1, 2, 4, 8}`. -/
structure ShadowStore where
  addr : Addr
  v : ULong
  size : Nat
  size_le : size ≤ 8

/-- The shadow map after a sequence of stores, in program order. -/
def storeRun (sm : ShadowMap) (stores : List ShadowStore) : ShadowMap :=
  stores.foldl (fun sm st => nlStoreDiff sm st.addr st.v st.size) sm

/-- The byte that the last store of the sequence covering `x` wrote there, if any: the byte
at position `x - addr` of its value. -/
def lastCover : List ShadowStore → Addr → Option UInt8
  | [], _ => none
  | st :: sts, x => (lastCover sts x).orElse fun _ =>
    if (x - st.addr).toNat < st.size then some (st.v.byte (x - st.addr).toNat) else none

/-- After a run of stores, every shadow byte holds what the last store covering it wrote,
or what it held before the run. -/
theorem storeRun_apply (sm : ShadowMap) (stores : List ShadowStore) (x : Addr) :
    storeRun sm stores x = (lastCover stores x).getD (sm x) := by
  induction stores generalizing sm with
  | nil => rfl
  | cons st sts ih =>
    simp only [storeRun, List.foldl_cons] at ih ⊢
    rw [ih, nlStoreDiff_apply _ _ _ st.size_le, lastCover]
    cases lastCover sts x with
    | some b => rfl
    | none => simp only [Option.orElse]; split_ifs <;> rfl

/-- `nl_Load_diffM(a)` after any run of stores: byte `k < M` comes from the last store that
covered `a + k`, or from the map before the run; bytes `M, ..., 7` are zero. -/
theorem nlLoadDiff_storeRun (sm : ShadowMap) (stores : List ShadowStore) (a : Addr)
    (M : Nat) (k : Fin 8) :
    nlLoadDiff (storeRun sm stores) a M k =
      if k.val < M then (lastCover stores (a + BitVec.ofNat 64 k.val)).getD
        (sm (a + BitVec.ofNat 64 k.val)) else 0 := by
  rw [nlLoadDiff_apply, storeRun_apply]

/-- The tool's own map is not all zero: with no store at all, `nl_Load_diff1(0xffff1111)`
returns `0xab`, the byte `nl_pre_clo_init` wrote. -/
theorem nlLoadDiff_nlInitialMap :
    nlLoadDiff (storeRun nlInitialMap []) 0xffff1111 1 0 = 0xab := by
  rw [nlLoadDiff_storeRun]
  rfl

end Derivgrind
