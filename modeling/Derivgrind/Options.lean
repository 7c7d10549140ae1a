import Mathlib.Data.List.Basic

/-!
# Derivgrind.Options

The parse of `--record-stop=<i1>,..,<ik>` in `dg_post_clo_init` (`dg_main.c`). The option
string is copied, an array of `maxsize = strlen/2 + 2` entries is allocated ("sloppy upper
bound for the maximal number of indices plus one"), the loop `while(indexstr)` stores the
value of each token `VG_(strtok_r)` returns in `indices[i]`, and `indices[i] = 0` ends the
list.

A C string is its characters before the terminating `'\0'`. `VG_(strtok_r)` is Valgrind's
(`m_libcbase.c`), modelled as it is written there for a one-character delimiter;
`VG_(strtoull10)` is left as a parameter, since nothing here depends on the values. A write
past the allocation is a fault, reported with its index.

The main result (`parseRecordStop_ok`) is that the bound is enough for every string: the
parse never writes past the array, and the array holds the value of each non-empty
comma-separated field of the string, in order, then `0`.
-/

namespace Derivgrind

/-! ## `VG_(strtok_r)` -/

section Strtok
variable (delim : Char)

/-- `VG_(strtok_r)` with the one-character delimiter `delim`, on the string that `s`, or
`*saveptr` for a later call, points at: the leading delimiters are skipped; at the end of the
string it returns `NULL`; otherwise the token runs to the next delimiter, which is overwritten
by `'\0'`, and `*saveptr` is left just past it, or at the end of the string. -/
def strtokR (s : List Char) : Option (List Char × List Char) :=
  match s.dropWhile (· == delim) with
  | [] => none
  | c :: cs => some ((c :: cs).takeWhile (· != delim), ((c :: cs).dropWhile (· != delim)).drop 1)

/-- The non-empty fields of `s` between the delimiters, in order: what a list
`<i1>,..,<ik>` names. -/
def delimFields (s : List Char) : List (List Char) :=
  (s.splitOn delim).filter fun f => !f.isEmpty

variable {delim} {s tok rest : List Char}

theorem dropWhile_eq_cons {p : Char → Bool} {l cs : List Char} {c : Char}
    (h : l.dropWhile p = c :: cs) : p c = false := by
  have := List.head?_dropWhile_not p l
  rwa [h] at this

/-- A token that `VG_(strtok_r)` returns is not empty, and what is left after it is empty or
at least two characters shorter than the string: the token and the delimiter after it. -/
theorem strtokR_length (h : strtokR delim s = some (tok, rest)) :
    tok ≠ [] ∧ 1 ≤ s.length ∧ (rest = [] ∨ rest.length + 2 ≤ s.length) := by
  unfold strtokR at h
  split at h
  · cases h
  · rename_i c cs hd
    obtain ⟨rfl, rfl⟩ := Prod.mk.inj (Option.some.inj h)
    have hc : (c != delim) = true := by simpa using dropWhile_eq_cons hd
    have hlen : (c :: cs).length ≤ s.length := hd ▸ (List.dropWhile_suffix _).length_le
    have hr : (cs.dropWhile (· != delim)).length ≤ cs.length := (List.dropWhile_suffix _).length_le
    simp only [List.length_cons] at hlen
    refine ⟨by simp [List.takeWhile_cons_of_pos (p := (· != delim)) hc], by omega, ?_⟩
    rw [List.dropWhile_cons_of_pos (p := (· != delim)) hc]
    cases hx : cs.dropWhile (· != delim) with
    | nil => exact .inl rfl
    | cons x xs =>
      rw [hx, List.length_cons] at hr
      exact .inr (by simp only [List.drop_one, List.tail_cons]; omega)

theorem strtokR_length_lt (h : strtokR delim s = some (tok, rest)) : rest.length < s.length := by
  obtain ⟨-, h1, h2⟩ := strtokR_length h
  rcases h2 with rfl | h2
  · exact h1
  · omega

/-- Leading delimiters only give empty fields. -/
theorem delimFields_dropWhile (s : List Char) :
    delimFields delim (s.dropWhile (· == delim)) = delimFields delim s := by
  induction s with
  | nil => rfl
  | cons c cs ih =>
    by_cases hc : (c == delim) = true
    · rw [List.dropWhile_cons_of_pos (p := (· == delim)) hc, ih]
      simp [delimFields, List.splitOn, List.splitOnP_cons, hc]
    · rw [List.dropWhile_cons_of_neg (p := (· == delim)) hc]

/-- At the end of the string there are no fields left. -/
theorem delimFields_of_strtokR_none (h : strtokR delim s = none) : delimFields delim s = [] := by
  unfold strtokR at h
  split at h
  · rename_i hd
    rw [← delimFields_dropWhile, hd]
    rfl
  · cases h

/-- A token of `VG_(strtok_r)` is the next field, and the string after it holds the others. -/
theorem delimFields_of_strtokR_some (h : strtokR delim s = some (tok, rest)) :
    delimFields delim s = tok :: delimFields delim rest := by
  unfold strtokR at h
  split at h
  · cases h
  · rename_i c cs hd
    obtain ⟨rfl, rfl⟩ := Prod.mk.inj (Option.some.inj h)
    have hc : (c != delim) = true := by simpa using dropWhile_eq_cons hd
    have hsplit := List.takeWhile_append_dropWhile (· != delim) (c :: cs)
    have htok : ∀ x ∈ (c :: cs).takeWhile (· != delim), ¬(x == delim) = true := fun x hx => by
      simpa using List.all_eq_true.1 (List.all_takeWhile (p := (· != delim))) x hx
    have hne : ((c :: cs).takeWhile (· != delim)).isEmpty = false := by
      simp [List.takeWhile_cons_of_pos (p := (· != delim)) hc]
    rw [← delimFields_dropWhile, hd]
    cases hx : (c :: cs).dropWhile (· != delim) with
    | nil =>
      rw [hx, List.append_nil] at hsplit
      conv_lhs => rw [← hsplit]
      simp only [delimFields, List.splitOn, List.splitOnP_eq_single _ _ htok, hx]
      simp [hne]
    | cons x xs =>
      have hxd : (x == delim) = true := by simpa using dropWhile_eq_cons hx
      rw [hx] at hsplit
      conv_lhs => rw [← hsplit]
      simp only [delimFields, List.splitOn, List.splitOnP_first _ _ htok x hxd, List.filter_cons,
        hne, Bool.not_false, if_true, List.drop_one, List.tail_cons]

/-- The string holds at most `(strlen + 1)/2` fields: each takes one character and, but for
the last, a delimiter. -/
theorem two_mul_length_delimFields (s : List Char) :
    2 * (delimFields delim s).length ≤ s.length + 1 := by
  cases h : strtokR delim s with
  | none => simp [delimFields_of_strtokR_none h]
  | some r =>
    obtain ⟨tok, rest⟩ := r
    obtain ⟨-, h1, h2⟩ := strtokR_length h
    have ih := two_mul_length_delimFields rest
    rw [delimFields_of_strtokR_some h, List.length_cons]
    rcases h2 with rfl | h2
    · simp [delimFields_of_strtokR_none (s := []) rfl]; omega
    · omega
termination_by s.length
decreasing_by exact strtokR_length_lt h

end Strtok

/-! ## The parse -/

/-- `indices[i] = v` in the array `VG_(malloc)` gave; past its entries, a fault. -/
def setIndex (indices : List Nat) (i v : Nat) : Except Nat (List Nat) :=
  if i < indices.length then .ok (indices.set i v) else .error i

section Parse
variable (strtoull10 : List Char → Nat)

/-- The loop `while(indexstr)` of `dg_post_clo_init`, with `*saveptr` at `rest`: the value of
each token goes to `indices[i]`, `i` counting up; it returns the final `i` and the array. -/
def stopIndicesLoop (rest : List Char) (i : Nat) (indices : List Nat) :
    Except Nat (Nat × List Nat) :=
  match h : strtokR ',' rest with
  | none => .ok (i, indices)
  | some (tok, rest') => do
    let indices ← setIndex indices i (strtoull10 tok)
    stopIndicesLoop rest' (i + 1) indices
termination_by rest.length
decreasing_by exact strtokR_length_lt h

/-- The parse of `--record-stop` in `dg_post_clo_init`: an array of `strlen/2 + 2` entries
(what `VG_(malloc)` leaves in it taken as zeros), the loop, then `indices[i] = 0`. -/
def parseRecordStop (str : List Char) : Except Nat (List Nat) := do
  let (i, indices) ← stopIndicesLoop strtoull10 str 0 (List.replicate (str.length / 2 + 2) 0)
  setIndex indices i 0

theorem take_succ_set {l : List Nat} {i : Nat} (hi : i < l.length) (v : Nat) :
    (l.set i v).take (i + 1) = l.take i ++ [v] := by
  rw [List.take_succ, List.getElem?_set_self hi, List.set_take,
    List.set_eq_of_length_le (by simp [Nat.min_le_left])]
  rfl

/-- With room for every field from `rest` on, the loop stores their values at `i, i+1, ...`
and ends with `i` past them. -/
theorem stopIndicesLoop_ok (rest : List Char) (i : Nat) (indices : List Nat)
    (hroom : i + (delimFields ',' rest).length ≤ indices.length) :
    ∃ indices', stopIndicesLoop strtoull10 rest i indices =
        .ok (i + (delimFields ',' rest).length, indices') ∧ indices'.length = indices.length ∧
      indices'.take (i + (delimFields ',' rest).length) =
        indices.take i ++ (delimFields ',' rest).map strtoull10 := by
  rw [stopIndicesLoop]
  split
  · rename_i h
    rw [delimFields_of_strtokR_none h]
    exact ⟨indices, rfl, rfl, by simp⟩
  · rename_i tok rest' h
    rw [delimFields_of_strtokR_some h] at hroom ⊢
    simp only [List.length_cons, List.map_cons] at hroom ⊢
    have hi : i < indices.length := by omega
    have hlt := strtokR_length_lt h
    obtain ⟨ind', hloop, hlen, htake⟩ := stopIndicesLoop_ok rest' (i + 1)
      (indices.set i (strtoull10 tok)) (by rw [List.length_set]; omega)
    have hk : i + ((delimFields ',' rest').length + 1) = i + 1 + (delimFields ',' rest').length :=
      by omega
    refine ⟨ind', ?_, by rw [hlen, List.length_set], ?_⟩
    · simp only [setIndex, if_pos hi, hk]
      exact hloop
    · rw [hk, htake, take_succ_set hi]
      simp
termination_by rest.length
decreasing_by exact hlt

/-- **The parse of `--record-stop` stays within its array.** For every option string, the loop
of `dg_post_clo_init` and the terminating write stay within the `strlen/2 + 2` entries it
allocates, and `recording_stop_indices` holds the value of each non-empty comma-separated field
of the string, in order, then `0`. -/
theorem parseRecordStop_ok (str : List Char) :
    ∃ indices, parseRecordStop strtoull10 str = .ok indices ∧
      indices.length = str.length / 2 + 2 ∧
      indices.take ((delimFields ',' str).length + 1) =
        (delimFields ',' str).map strtoull10 ++ [0] := by
  have hb := @two_mul_length_delimFields ',' str
  obtain ⟨ind, hloop, hlen, htake⟩ := stopIndicesLoop_ok strtoull10 str 0
    (List.replicate (str.length / 2 + 2) 0) (by simp; omega)
  have hk : (delimFields ',' str).length < ind.length := by rw [hlen, List.length_replicate]; omega
  refine ⟨ind.set (delimFields ',' str).length 0, ?_, by rw [List.length_set, hlen]; simp, ?_⟩
  · simp only [parseRecordStop, Nat.zero_add] at hloop ⊢
    rw [hloop]
    exact if_pos hk
  · rw [take_succ_set hk, ← Nat.zero_add (delimFields ',' str).length, htake]
    simp

end Parse

end Derivgrind
