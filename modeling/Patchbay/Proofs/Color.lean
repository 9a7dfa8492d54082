import Mathlib.Data.Nat.Bitwise
import Mathlib.Data.Nat.ModEq
import Patchbay.Color

/-!
The hash of a spelling.  The sum of shifts in a step is the product with a prime, so the hash is a
plain fold (`hash_eq_foldl`) whose states have 32 bits.

No step loses anything.  Exclusive or is undone by itself, and the product is undone because the
prime is odd; hence two states, or two characters, that differ before a step differ after it.  What
two texts have in common behind a place at which they differ cannot make their hashes equal again.
-/

namespace Patchbay
namespace Color

variable {h h' : Nat} {c c' : Char}

/-! ### One step -/

theorem hashStep_eq (h : Nat) (c : Char) :
    hashStep h c = (h ^^^ c.toNat) * 16777619 % 0x100000000 := by
  simp only [hashStep, Nat.shiftLeft_eq]
  omega

theorem hashStep_lt (h : Nat) (c : Char) : hashStep h c < 0x100000000 := by
  rw [hashStep_eq]
  exact Nat.mod_lt _ (by decide)

/-- A character has less than 32 bits. -/
theorem xor_toNat_lt (hh : h < 0x100000000) (c : Char) : h ^^^ c.toNat < 0x100000000 :=
  Nat.xor_lt_two_pow (n := 32) hh c.val.toNat_lt

/-- The prime is odd, so its product keeps numbers of 32 bits apart. -/
theorem mul_prime_cancel {v w : Nat} (hv : v < 0x100000000) (hw : w < 0x100000000)
    (he : v * 16777619 % 0x100000000 = w * 16777619 % 0x100000000) : v = w := by
  have hodd : Nat.gcd 0x100000000 16777619 = 1 := by decide
  have hmod : v ≡ w [MOD 0x100000000] := Nat.ModEq.cancel_right_of_coprime hodd he
  exact hmod.eq_of_lt_of_lt hv hw

/-- Steps with one outcome had one input to the product. -/
theorem xor_eq_of_hashStep_eq (hh : h < 0x100000000) (hh' : h' < 0x100000000)
    (he : hashStep h c = hashStep h' c') : h ^^^ c.toNat = h' ^^^ c'.toNat := by
  rw [hashStep_eq, hashStep_eq] at he
  exact mul_prime_cancel (xor_toNat_lt hh c) (xor_toNat_lt hh' c') he

theorem state_eq_of_hashStep_eq (hh : h < 0x100000000) (hh' : h' < 0x100000000)
    (he : hashStep h c = hashStep h' c) : h = h' :=
  Nat.xor_left_inj.mp (xor_eq_of_hashStep_eq hh hh' he)

theorem char_eq_of_hashStep_eq (hh : h < 0x100000000) (he : hashStep h c = hashStep h c') :
    c = c' :=
  Char.toNat_inj.mp (Nat.xor_right_inj.mp (xor_eq_of_hashStep_eq hh hh he))

/-! ### Whole texts -/

theorem foldl_hashStep_lt (hh : h < 0x100000000) (cs : List Char) :
    cs.foldl hashStep h < 0x100000000 := by
  induction cs generalizing h with
  | nil => exact hh
  | cons c rest ih =>
    rw [List.foldl_cons]
    exact ih (hashStep_lt h c)

theorem state_eq_of_foldl_eq (hh : h < 0x100000000) (hh' : h' < 0x100000000) (cs : List Char)
    (he : cs.foldl hashStep h = cs.foldl hashStep h') : h = h' := by
  induction cs generalizing h h' with
  | nil => exact he
  | cons c rest ih =>
    rw [List.foldl_cons, List.foldl_cons] at he
    have hstep : hashStep h c = hashStep h' c := ih (hashStep_lt h c) (hashStep_lt h' c) he
    exact state_eq_of_hashStep_eq hh hh' hstep

theorem hashSeed_lt : hashSeed < 0x100000000 := by decide

theorem hash_eq_foldl (s : String) :
    hash s = s.toList.foldl (fun h c => (h ^^^ c.toNat) * 16777619 % 0x100000000) 0x811C9DC5 := by
  have hstep : hashStep = fun h c => (h ^^^ c.toNat) * 16777619 % 0x100000000 := by
    funext h c
    exact hashStep_eq h c
  rw [hash, hashSeed, hstep]

theorem foldl_hashStep_ne_of_change (before after : List Char) (hne : c ≠ c') :
    (before ++ c :: after).foldl hashStep hashSeed ≠
      (before ++ c' :: after).foldl hashStep hashSeed := by
  intro he
  rw [List.foldl_append, List.foldl_append, List.foldl_cons, List.foldl_cons] at he
  have hbefore := foldl_hashStep_lt hashSeed_lt before
  have hstep := state_eq_of_foldl_eq (hashStep_lt _ c) (hashStep_lt _ c') after he
  exact hne (char_eq_of_hashStep_eq hbefore hstep)

/-- Lists that differ at one place have the same items before it and behind it. -/
theorem exists_change {α : Type} {l l' : List α} (hlength : l.length = l'.length)
    (hone : ∃! i : Nat, l[i]? ≠ l'[i]?) :
    ∃ before a a' after, l = before ++ a :: after ∧ l' = before ++ a' :: after ∧ a ≠ a' := by
  obtain ⟨i, hdiffer, hunique⟩ := hone
  have hsame : ∀ j, j ≠ i → l[j]? = l'[j]? := by
    intro j hj
    by_contra hne
    exact hj (hunique j hne)
  have hi : i < l.length := by
    by_contra hge
    have hle : l.length ≤ i := Nat.le_of_not_lt hge
    exact hdiffer (by rw [List.getElem?_eq_none hle, List.getElem?_eq_none (hlength ▸ hle)])
  have hi' : i < l'.length := hlength ▸ hi
  have hbefore : l'.take i = l.take i := by
    refine List.ext_getElem? fun j => ?_
    rw [List.getElem?_take, List.getElem?_take]
    split
    · next hj => exact (hsame j (Nat.ne_of_lt hj)).symm
    · rfl
  have hafter : l'.drop (i + 1) = l.drop (i + 1) := by
    refine List.ext_getElem? fun j => ?_
    rw [List.getElem?_drop, List.getElem?_drop]
    exact (hsame _ (by omega)).symm
  refine ⟨l.take i, l[i], l'[i], l.drop (i + 1), ?_, ?_, ?_⟩
  · rw [← List.drop_eq_getElem_cons hi, List.take_append_drop]
  · rw [← hbefore, ← hafter, ← List.drop_eq_getElem_cons hi', List.take_append_drop]
  · intro heq
    exact hdiffer (by rw [List.getElem?_eq_getElem hi, List.getElem?_eq_getElem hi', heq])

/-- The hash folds exclusive or and product over the code points, never leaves 32 bits on the way,
and tells apart any two texts of one length that differ at one place. -/
theorem hash_separates_one_change (s : String) :
    hash s = s.toList.foldl (fun h c => (h ^^^ c.toNat) * 16777619 % 0x100000000) 0x811C9DC5 ∧
    (∀ start, start <+: s.toList → start.foldl hashStep hashSeed < 0x100000000) ∧
    ∀ t : String, s.length = t.length → (∃! i : Nat, s.toList[i]? ≠ t.toList[i]?) →
      hash s ≠ hash t := by
  refine ⟨hash_eq_foldl s, fun start _ => foldl_hashStep_lt hashSeed_lt start, ?_⟩
  intro t hlength hone
  rw [← String.length_toList, ← String.length_toList] at hlength
  obtain ⟨before, c, c', after, hs, ht, hne⟩ := exists_change hlength hone
  rw [hash, hash, hs, ht]
  exact foldl_hashStep_ne_of_change before after hne

/-- The characters that differ have more than one byte. -/
theorem hash_separates_one_change_label :
    let s := "list<αβ>"
    let t := "list<α𝔹>"
    s.length = t.length ∧ (∃! i : Nat, s.toList[i]? ≠ t.toList[i]?) ∧ hash s ≠ hash t := by
  intro s t
  have hlength : s.length = t.length := by decide
  have hone : ∃! i : Nat, s.toList[i]? ≠ t.toList[i]? := by
    refine ⟨6, by decide, fun i hi => ?_⟩
    by_contra hne
    have hset : t.toList = s.toList.set 6 '𝔹' := by decide
    exact hi (by rw [hset, List.getElem?_set_ne (Ne.symm hne)])
  exact ⟨hlength, hone, (hash_separates_one_change s).2.2 t hlength hone⟩

end Color
end Patchbay
