import Mathlib.Data.List.Nodup

/-!
# Binary min-heaps in a list

* `keyAt`, `Ordered` : the keys by position, every parent before its children;
* `swap`, `swap_perm`, `keyAt_swap` : two elements change places;
* `Sinking` : a heap but for one element, the greatest, on its way down;
* `Sinking.step`, `Sinking.ordered` : it goes down past its lesser child, to the end.
-/

namespace MinHeap

variable {α : Type} (key : α → Nat)

/-- The key at a position. -/
def keyAt (l : List α) (i : Nat) : Nat := (l[i]?.map key).getD 0

/-- Every element comes after its parent. -/
def Ordered (l : List α) : Prop := ∀ i, 0 < i → i < l.length → keyAt key l ((i - 1) / 2) < keyAt key l i

def swap (l : List α) (i j : Nat) : List α :=
  match l[i]?, l[j]? with
  | some a, some b => (l.set i b).set j a
  | _, _ => l

variable {key} {l : List α} {i j k : Nat}

theorem keyAt_of_lt (h : i < l.length) : keyAt key l i = key l[i] := by
  unfold keyAt
  rw [List.getElem?_eq_getElem h]
  rfl

theorem swap_of_lt (hi : i < l.length) (hj : j < l.length) : swap l i j = (l.set i l[j]).set j l[i] := by
  unfold swap
  rw [List.getElem?_eq_getElem hi, List.getElem?_eq_getElem hj]

theorem swap_perm (hi : i < l.length) (hj : j < l.length) : (swap l i j).Perm l := by
  rw [swap_of_lt hi hj]
  exact List.set_set_perm hi hj

theorem keyAt_set {a : α} (hi : i < l.length) : keyAt key (l.set i a) k = if k = i then key a else keyAt key l k := by
  unfold keyAt
  by_cases hk : k = i
  · rw [hk, List.getElem?_set_self hi, if_pos rfl]
    rfl
  · rw [List.getElem?_set_ne (fun h => hk h.symm), if_neg hk]

theorem keyAt_swap (hi : i < l.length) (hj : j < l.length) : keyAt key (swap l i j) k =
    if k = j then keyAt key l i else if k = i then keyAt key l j else keyAt key l k := by
  have hlen : j < (l.set i l[j]).length := by simpa using hj
  have hkeyI : key l[i] = keyAt key l i := (keyAt_of_lt hi).symm
  have hkeyJ : key l[j] = keyAt key l j := (keyAt_of_lt hj).symm
  rw [swap_of_lt hi hj, keyAt_set hlen, keyAt_set hi, hkeyI, hkeyJ]

theorem keyAt_inj (h : (l.map key).Nodup) (hi : i < l.length) (hj : j < l.length)
    (heq : keyAt key l i = keyAt key l j) : i = j := by
  rw [keyAt_of_lt hi, keyAt_of_lt hj] at heq
  have hi' : i < (l.map key).length := by simpa using hi
  have hj' : j < (l.map key).length := by simpa using hj
  have hmap : (l.map key)[i] = (l.map key)[j] := by simpa using heq
  exact (List.Nodup.getElem_inj_iff h).mp hmap

/-- A heap but for the element at `i`, which comes after all others. -/
structure Sinking (key : α → Nat) (l : List α) (i : Nat) : Prop where
  inside : i < l.length
  nodup : (l.map key).Nodup
  last : ∀ k < l.length, k ≠ i → keyAt key l k < keyAt key l i
  others : ∀ k, 0 < k → k < l.length → (k - 1) / 2 ≠ i → keyAt key l ((k - 1) / 2) < keyAt key l k
  grand : 0 < i → ∀ k, 0 < k → k < l.length → (k - 1) / 2 = i → keyAt key l ((i - 1) / 2) < keyAt key l k

/-- The greatest element has taken the place of another one. -/
theorem Sinking.of_set {a : α} (h : Ordered key l) (hi : i < l.length) (hnodup : (l.map key).Nodup)
    (hlast : ∀ b ∈ l, key b < key a) : Sinking key (l.set i a) i := by
  have hlen : (l.set i a).length = l.length := List.length_set
  have hat : ∀ k < l.length, keyAt key l k < key a := by
    intro k hk
    rw [keyAt_of_lt hk]
    exact hlast _ (List.getElem_mem hk)
  constructor
  · rw [hlen]
    exact hi
  · rw [List.map_set]
    refine List.Nodup.set hnodup ?_
    intro hmem
    obtain ⟨b, hb, heq⟩ := List.mem_map.mp hmem
    exact absurd heq (Nat.ne_of_lt (hlast b hb))
  · intro k hk hne
    rw [keyAt_set hi, keyAt_set hi, if_neg hne, if_pos rfl]
    exact hat k (hlen ▸ hk)
  · intro k hpos hk hparent
    rw [hlen] at hk
    rw [keyAt_set hi, keyAt_set hi, if_neg hparent]
    split
    · exact hat _ (by omega)
    · exact h k hpos hk
  · intro hpos k hk0 hk hchild
    rw [hlen] at hk
    rw [keyAt_set hi, keyAt_set hi, if_neg (by omega), if_neg (by omega)]
    have hup := h i hpos hi
    have hdown := h k hk0 hk
    rw [hchild] at hdown
    exact Nat.lt_trans hup hdown

/-- Past the lesser child. -/
theorem Sinking.step (h : Sinking key l i) (hright : 2 * i + 2 < l.length) :
    let next := if keyAt key l (2 * i + 1) < keyAt key l (2 * i + 2) then 2 * i + 1 else 2 * i + 2
    Sinking key (swap l i next) next := by
  intro next
  have hchild : next = 2 * i + 1 ∨ next = 2 * i + 2 := by
    simp only [next]
    split
    · exact .inl rfl
    · exact .inr rfl
  have hnext : next < l.length := by omega
  have hlesser : ∀ k, (k = 2 * i + 1 ∨ k = 2 * i + 2) → k ≠ next → keyAt key l next < keyAt key l k := by
    intro k hk hne
    have hdiff : keyAt key l (2 * i + 1) ≠ keyAt key l (2 * i + 2) := fun heq =>
      absurd (keyAt_inj h.nodup (by omega) hright heq) (by omega)
    simp only [next] at hne ⊢
    split at hne
    · rename_i hlt
      rw [if_pos hlt]
      rcases hk with rfl | rfl
      · exact absurd rfl hne
      · exact hlt
    · rename_i hge
      rw [if_neg hge]
      rcases hk with rfl | rfl
      · omega
      · exact absurd rfl hne
  have hperm := swap_perm h.inside hnext
  have hlen : (swap l i next).length = l.length := hperm.length_eq
  have hswap : ∀ k, keyAt key (swap l i next) k =
      if k = next then keyAt key l i else if k = i then keyAt key l next else keyAt key l k :=
    fun k => keyAt_swap h.inside hnext
  constructor
  · rw [hlen]
    exact hnext
  · exact (hperm.map key).nodup_iff.mpr h.nodup
  · intro k hk hne
    rw [hswap, hswap, if_neg hne, if_pos rfl]
    split
    · exact h.last next hnext (by omega)
    · exact h.last k (hlen ▸ hk) ‹_›
  · intro k hpos hk hparent
    rw [hlen] at hk
    rw [hswap, hswap, if_neg hparent]
    by_cases hki : k = i
    · -- the child that went up comes after the parent of `i`
      rw [if_neg (by omega), if_neg (by omega), if_pos hki, hki]
      exact h.grand (by omega) next (by omega) hnext (by omega)
    · by_cases hpi : (k - 1) / 2 = i
      · rw [if_pos hpi, if_neg hki]
        split
        · exact h.last next hnext (by omega)
        · exact hlesser k (by omega) ‹_›
      · rw [if_neg hpi, if_neg (by omega), if_neg hki]
        exact h.others k hpos hk hpi
  · intro hpos k hk0 hk hgrand
    rw [hlen] at hk
    rw [hswap, hswap, if_neg (by omega), if_pos (by omega), if_neg (by omega), if_neg (by omega)]
    have hbelow := h.others k hk0 hk (by omega)
    rw [hgrand] at hbelow
    exact hbelow

/-- At the end of the way. -/
theorem Sinking.ordered (h : Sinking key l i) (hleaf : l.length ≤ 2 * i + 1) : Ordered key l := by
  intro k hpos hk
  exact h.others k hpos hk (by omega)

end MinHeap
