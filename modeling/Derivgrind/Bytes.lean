import Derivgrind.IR.Syntax

/-!
# Derivgrind.Bytes

Byte-addressed stores: the guest state (indexed by offset), client memory and the shadow
maps (indexed by wrapping 64-bit addresses). A store is a function to `UInt8`; writing a
list of bytes updates consecutive locations, reading `n` bytes collects them.

The frame facts proved here are what every non-interference argument of the project is
built from: a write leaves every location outside its footprint alone, and two stores that
agree on a region still agree there after the same write.
-/

namespace Derivgrind

variable {α : Type} [Add α] [One α]

/-- Write `bs` to consecutive locations starting at `a`. -/
def writeBytes [DecidableEq α] (m : α → UInt8) (a : α) : List UInt8 → α → UInt8
  | [] => m
  | b :: bs => writeBytes (Function.update m a b) (a + 1) bs

/-- Read `n` consecutive locations starting at `a`. -/
def readBytes (m : α → UInt8) (a : α) : Nat → List UInt8
  | 0 => []
  | n + 1 => m a :: readBytes m (a + 1) n

@[simp] theorem writeBytes_nil [DecidableEq α] (m : α → UInt8) (a : α) : writeBytes m a [] = m := rfl

@[simp] theorem writeBytes_cons [DecidableEq α] (m : α → UInt8) (a : α) (b : UInt8) (bs : List UInt8) :
    writeBytes m a (b :: bs) = writeBytes (Function.update m a b) (a + 1) bs := rfl

@[simp] theorem length_readBytes (m : α → UInt8) (a : α) (n : Nat) :
    (readBytes m a n).length = n := by
  induction n generalizing a with
  | zero => rfl
  | succ n ih => simp [readBytes, ih]

/-! ## Little-endian numbers -/

/-- The number a little-endian byte list stands for. -/
def leNat : List UInt8 → Nat
  | [] => 0
  | b :: bs => b.toNat + 256 * leNat bs

/-- The `n` little-endian bytes of `w`, modulo `2 ^ (8 * n)`. -/
def leBytes (w : Nat) : Nat → List UInt8
  | 0 => []
  | n + 1 => UInt8.ofNat w :: leBytes (w / 256) n

@[simp] theorem length_leBytes (w n : Nat) : (leBytes w n).length = n := by
  induction n generalizing w with
  | zero => rfl
  | succ n ih => simp [leBytes, ih]

theorem leBytes_leNat : ∀ bs : List UInt8, leBytes (leNat bs) bs.length = bs
  | [] => rfl
  | b :: bs => by
    have hb : b.toNat < 256 := UInt8.toNat_lt_size b
    simp only [leNat, List.length_cons, leBytes]
    rw [show (b.toNat + 256 * leNat bs) / 256 = leNat bs by omega, leBytes_leNat bs]
    congr 1
    apply UInt8.eq_of_toBitVec_eq
    apply BitVec.eq_of_toNat_eq
    have : b.toNat = b.toBitVec.toNat := rfl
    simp only [UInt8.ofNat, BitVec.toNat_ofNat]
    omega

theorem leNat_lt : ∀ bs : List UInt8, leNat bs < 256 ^ bs.length
  | [] => by decide
  | b :: bs => by
    have hb : b.toNat < 256 := UInt8.toNat_lt_size b
    have := leNat_lt bs
    simp only [leNat, List.length_cons, Nat.pow_succ]
    omega

theorem leNat_leBytes (w : Nat) : ∀ n : Nat, leNat (leBytes w n) = w % 256 ^ n
  | 0 => by simp [leBytes, leNat, Nat.mod_one]
  | n + 1 => by
    have h8 : (UInt8.ofNat w).toNat = w % 256 := by simp [UInt8.toNat, UInt8.ofNat]
    rw [leBytes, leNat, leNat_leBytes (w / 256) n, h8, Nat.pow_succ, Nat.mul_comm _ 256,
      Nat.mod_mul]

/-- Zero bytes at the top do not change a little-endian number. -/
theorem leNat_append_zeros (bs : List UInt8) (m : Nat) :
    leNat (bs ++ List.replicate m 0) = leNat bs := by
  induction bs with
  | nil =>
    induction m with
    | zero => rfl
    | succ m ih => simpa [leNat, List.replicate_succ] using ih
  | cons b bs ih => simp [leNat, ih]

/-- The little-endian number of two byte lists one after the other. -/
theorem leNat_append (a b : List UInt8) : leNat (a ++ b) = leNat a + 256 ^ a.length * leNat b := by
  induction a with
  | nil => simp [leNat]
  | cons x a ih =>
    rw [List.cons_append, leNat, leNat, ih, List.length_cons, Nat.pow_succ, Nat.mul_add,
      ← Nat.mul_assoc, Nat.mul_comm 256 (256 ^ a.length), Nat.add_assoc]

/-- The bytes after a prefix, read as a number, are the number divided by the prefix's
weight. -/
theorem leNat_append_div (a b : List UInt8) : leNat (a ++ b) / 256 ^ a.length = leNat b := by
  rw [leNat_append, Nat.add_mul_div_left _ _ (Nat.pow_pos (by decide)),
    Nat.div_eq_of_lt (leNat_lt a), Nat.zero_add]

theorem leNat_append_mod (a b : List UInt8) : leNat (a ++ b) % 256 ^ a.length = leNat a := by
  rw [leNat_append, Nat.add_mul_mod_self_left, Nat.mod_eq_of_lt (leNat_lt a)]

/-- The first `m` bytes of a number's `m + n` bytes, and the `n` after them. -/
theorem leBytes_add (w m n : Nat) : leBytes w (m + n) = leBytes w m ++ leBytes (w / 256 ^ m) n := by
  induction m generalizing w with
  | zero => simp [leBytes]
  | succ m ih =>
    rw [Nat.succ_add, leBytes, leBytes, ih, Nat.div_div_eq_div_mul, ← Nat.pow_succ']
    rfl

/-! ## Wrapping addresses -/

/-- A write of fewer than `2 ^ 64` bytes at `a`: address `x` holds byte `x - a` of the list
when that is in range, and its old byte otherwise. -/
theorem writeBytes_apply_addr (m : Addr → UInt8) (a : Addr) (bs : List UInt8)
    (hbs : bs.length < 2 ^ 64) (x : Addr) : writeBytes m a bs x = bs.getD (x - a).toNat (m x) := by
  induction bs generalizing m a with
  | nil => simp
  | cons b bs ih =>
    simp only [List.length_cons] at hbs
    rw [writeBytes_cons, ih _ _ (by omega)]
    by_cases hx : x = a
    · subst hx
      have : bs.length ≤ (x - (x + 1)).toNat := by bv_omega
      rw [List.getD_eq_default _ _ this, Function.update_same]
      simp
    · have hk : (x - a).toNat = (x - (a + 1)).toNat + 1 := by bv_omega
      rw [hk, Function.update_noteq hx]
      rfl

/-- Reading back the bytes just written. -/
theorem readBytes_writeBytes_self (m : Addr → UInt8) (a : Addr) (bs : List UInt8) {n : Nat}
    (hbs : bs.length < 2 ^ 64) (hn : bs.length = n) : readBytes (writeBytes m a bs) a n = bs := by
  subst hn
  induction bs generalizing m a with
  | nil => rfl
  | cons b bs ih =>
    simp only [List.length_cons] at hbs
    rw [List.length_cons, readBytes, writeBytes_cons, ih _ _ (by omega),
      writeBytes_apply_addr _ _ _ (by omega)]
    have : bs.length ≤ (a - (a + 1)).toNat := by bv_omega
    rw [List.getD_eq_default _ _ this, Function.update_same]

theorem getElem_readBytes (m : Addr → UInt8) (a : Addr) :
    ∀ (n k : Nat) (hk : k < (readBytes m a n).length),
      (readBytes m a n)[k] = m (a + BitVec.ofNat 64 k)
  | 0, k, hk => by simp at hk
  | n + 1, 0, _ => by simp [readBytes]
  | n + 1, k + 1, hk => by
    simp only [readBytes, List.getElem_cons_succ]
    rw [getElem_readBytes m (a + 1) n k (by simpa [readBytes] using hk)]
    congr 1
    bv_omega

/-- Writing back the bytes just read changes nothing. -/
theorem writeBytes_readBytes_self (m : Addr → UInt8) (a : Addr) {n : Nat} (hn : n < 2 ^ 64) :
    writeBytes m a (readBytes m a n) = m := by
  funext x
  rw [writeBytes_apply_addr _ _ _ (by simpa using hn)]
  by_cases hx : (x - a).toNat < n
  · rw [List.getD_eq_getElem _ _ (by simpa using hx), getElem_readBytes]
    congr 1
    bv_omega
  · exact List.getD_eq_default _ _ (by simpa using hx)

/-- Storing back, as a number, the value just loaded changes nothing. -/
theorem writeBytes_leBytes_readBytes (m : Addr → UInt8) (a : Addr) {n : Nat} (hn : n < 2 ^ 64) :
    writeBytes m a (leBytes (leNat (readBytes m a n)) n) = m := by
  have h := leBytes_leNat (readBytes m a n)
  rw [length_readBytes] at h
  rw [h, writeBytes_readBytes_self _ _ hn]

/-- A read of `n` bytes that lies inside a write of `bs` reads the written bytes. -/
theorem readBytes_writeBytes_within (m : Addr → UInt8) (a b : Addr) (bs : List UInt8) (n : Nat)
    (hbs : bs.length < 2 ^ 64) (h : (b - a).toNat + n ≤ bs.length) :
    readBytes (writeBytes m a bs) b n = (bs.drop (b - a).toNat).take n := by
  apply List.ext_getElem
  · simp only [length_readBytes, List.length_take, List.length_drop]
    omega
  · intro k h₁ h₂
    rw [getElem_readBytes, writeBytes_apply_addr _ _ _ hbs, List.getElem_take, List.getElem_drop]
    have hk : (b + BitVec.ofNat 64 k - a).toNat = (b - a).toNat + k := by
      simp only [length_readBytes] at h₁
      bv_omega
    rw [hk, List.getD_eq_getElem]

/-- A read of `n` bytes that lies outside a write of `bs`, wrapping included, is unchanged. -/
theorem readBytes_writeBytes_of_disjoint (m : Addr → UInt8) (a b : Addr) (bs : List UInt8) (n : Nat)
    (hbs : bs.length < 2 ^ 64) (h : ∀ k < n, bs.length ≤ (b + BitVec.ofNat 64 k - a).toNat) :
    readBytes (writeBytes m a bs) b n = readBytes m b n := by
  induction n generalizing b with
  | zero => rfl
  | succ n ih =>
    have h0 := h 0 (Nat.zero_lt_succ n)
    simp only [BitVec.ofNat_eq_ofNat, BitVec.add_zero] at h0
    rw [readBytes, readBytes, writeBytes_apply_addr _ _ _ hbs, List.getD_eq_default _ _ h0,
      ih (b + 1) fun k hk => by
        have := h (k + 1) (by omega)
        rwa [show b + 1 + BitVec.ofNat 64 k = b + BitVec.ofNat 64 (k + 1) by bv_omega]]

/-! ## Guest-state offsets -/

/-- A write at offset `o` leaves every offset below `o` alone. -/
theorem writeBytes_apply_of_lt (m : Nat → UInt8) (o : Nat) (bs : List UInt8) {x : Nat}
    (hx : x < o) : writeBytes m o bs x = m x := by
  induction bs generalizing m o with
  | nil => rfl
  | cons b bs ih =>
    rw [writeBytes_cons, ih _ _ (by omega), Function.update_noteq (by omega)]

/-- A write at offset `o` leaves every offset from `o + bs.length` on alone. -/
theorem writeBytes_apply_of_le (m : Nat → UInt8) (o : Nat) (bs : List UInt8) {x : Nat}
    (hx : o + bs.length ≤ x) : writeBytes m o bs x = m x := by
  induction bs generalizing m o with
  | nil => rfl
  | cons b bs ih =>
    simp only [List.length_cons] at hx
    rw [writeBytes_cons, ih _ _ (by omega), Function.update_noteq (by omega)]

/-- Two guest states that agree below `n` agree there after the same write. -/
theorem writeBytes_agree {m₁ m₂ : Nat → UInt8} {n : Nat} (h : ∀ x < n, m₁ x = m₂ x)
    (o : Nat) (bs : List UInt8) : ∀ x < n, writeBytes m₁ o bs x = writeBytes m₂ o bs x := by
  induction bs generalizing m₁ m₂ o with
  | nil => exact h
  | cons b bs ih =>
    refine ih (fun x hx => ?_) (o + 1)
    by_cases hxo : x = o
    · subst hxo; simp
    · simp [Function.update_noteq hxo, h x hx]

/-- Reading `k` offsets at `o` from guest states that agree below `n ≥ o + k`. -/
theorem readBytes_agree {m₁ m₂ : Nat → UInt8} {n : Nat} (h : ∀ x < n, m₁ x = m₂ x)
    {o k : Nat} (hk : o + k ≤ n) : readBytes m₁ o k = readBytes m₂ o k := by
  induction k generalizing o with
  | zero => rfl
  | succ k ih => simp only [readBytes, h o (by omega), ih (o := o + 1) (by omega)]

end Derivgrind
