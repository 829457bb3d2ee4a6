import Mutiny.Lib.Wrap

/-!
# Ring buffers over wrapping 32-bit counters

The contents of a ring of `b` cells whose occupied part starts at the counter `head` and has length
`n`: cell `head + i` modulo `b`, for `i < n`. The counters wrap at `2 ^ 32`, so that `b` has to
divide `2 ^ 32` for consecutive ids to keep occupying consecutive cells.
-/

namespace Ring
variable {α : Type} {b : Nat}

/-- `b` is a power of two. -/
def PowerOfTwo (b : Nat) : Prop := ∃ k, b = 2 ^ k

/-- The room of a ring whose bound test is made against `b as u32`. -/
def room (b : Nat) : Nat := (UInt32.ofNat b).toNat

theorem PowerOfTwo.pos (h : PowerOfTwo b) : 0 < b := by
  obtain ⟨k, rfl⟩ := h
  exact Nat.two_pow_pos k

/-- A power of two either fits the counters or leaves no room at all. -/
theorem PowerOfTwo.room_cases (h : PowerOfTwo b) : (room b = b ∧ b ≤ 2 ^ 31 ∧ b ∣ 2 ^ 32) ∨ room b = 0 := by
  obtain ⟨k, rfl⟩ := h
  unfold room
  rw [UInt32.toNat_ofNat']
  by_cases hk : k ≤ 31
  · have hle : 2 ^ k ≤ 2 ^ 31 := Nat.pow_le_pow_right (by decide) hk
    exact .inl ⟨Nat.mod_eq_of_lt (by omega), hle, Nat.pow_dvd_pow 2 (by omega)⟩
  · exact .inr (Nat.mod_eq_zero_of_dvd (Nat.pow_dvd_pow 2 (by omega)))

theorem PowerOfTwo.room_le (h : PowerOfTwo b) : room b ≤ 2 ^ 31 := by
  rcases h.room_cases with ⟨h₁, h₂, -⟩ | h₁ <;> omega

theorem PowerOfTwo.room_le_self (h : PowerOfTwo b) : room b ≤ b := by
  rcases h.room_cases with ⟨h₁, h₂, -⟩ | h₁ <;> omega

theorem PowerOfTwo.dvd_of_lt_room (h : PowerOfTwo b) {n : Nat} (hn : n < room b) : b ∣ 2 ^ 32 := by
  rcases h.room_cases with ⟨-, -, h₁⟩ | h₁
  · exact h₁
  · omega

theorem PowerOfTwo.dvd_of_lt (h : PowerOfTwo b) (hlt : b < 2 ^ 32) : b ∣ 2 ^ 32 := by
  obtain ⟨k, rfl⟩ := h
  exact Nat.pow_dvd_pow 2 (Nat.le_of_lt ((Nat.pow_lt_pow_iff_right (by decide)).mp hlt))

theorem PowerOfTwo.ofNat_eq_zero (h : PowerOfTwo b) (hle : 2 ^ 32 ≤ b) : UInt32.ofNat b = 0 := by
  rcases h.room_cases with ⟨-, hle', -⟩ | h₀
  · omega
  · exact UInt32.toNat_inj.mp h₀

/-- A power of two that is not changed by `as u32`. -/
def Fits (b : Nat) : Prop := ∃ k ≤ 31, b = 2 ^ k

namespace Fits

theorem powerOfTwo (h : Fits b) : PowerOfTwo b := by
  obtain ⟨k, -, rfl⟩ := h
  exact ⟨k, rfl⟩

theorem le (h : Fits b) : b ≤ 2 ^ 31 := by
  obtain ⟨k, hk, rfl⟩ := h
  exact Nat.pow_le_pow_right (by decide) hk

theorem pos (h : Fits b) : 0 < b := h.powerOfTwo.pos

theorem dvd (h : Fits b) : b ∣ 2 ^ 32 := by
  obtain ⟨k, hk, rfl⟩ := h
  exact Nat.pow_dvd_pow 2 (by omega)

end Fits

theorem PowerOfTwo.fits_of_lt_room (h : PowerOfTwo b) {n : Nat} (hn : n < room b) : Fits b := by
  obtain ⟨k, rfl⟩ := h
  refine ⟨k, ?_, rfl⟩
  rcases PowerOfTwo.room_cases ⟨k, rfl⟩ with ⟨-, hle, -⟩ | h₀
  · exact (Nat.pow_le_pow_iff_right (by decide)).mp hle
  · omega

/-- The cell of the `i`-th element of a ring that starts at `head`. -/
def cell (b : Nat) (head : UInt32) (i : Nat) : Nat := (head + UInt32.ofNat i).toNat % b

/-- The contents of the ring. -/
def view (b : Nat) (buffer : Nat → α) (head : UInt32) (n : Nat) : List α :=
  (List.range n).map fun i => buffer (cell b head i)

@[simp] theorem length_view (buffer : Nat → α) (head : UInt32) (n : Nat) : (view b buffer head n).length = n := by
  simp [view]

theorem cell_zero (head : UInt32) : cell b head 0 = head.toNat % b := by
  simp [cell]

theorem cell_succ (head : UInt32) (i : Nat) : cell b head (i + 1) = cell b (head + 1) i := by
  unfold cell
  rw [Wrap.ofNat_succ, UInt32.add_comm _ 1, UInt32.add_assoc]

theorem cell_ne (hb : b ∣ 2 ^ 32) (head : UInt32) {i j : Nat} (hi : i < b) (hj : j < b) (hij : i ≠ j) :
    cell b head i ≠ cell b head j := by
  have hmod : ∀ k, cell b head k = (head.toNat + k) % b := by
    intro k
    unfold cell
    rw [UInt32.toNat_add, Nat.mod_mod_of_dvd _ hb, Nat.add_mod, Wrap.toNat_ofNat_mod hb, ← Nat.add_mod]
  rw [hmod, hmod]
  exact Wrap.mod_ne_of_window head.toNat (by omega) (by omega) (by omega) (by omega) (by omega)

theorem view_succ_cons (buffer : Nat → α) (head : UInt32) (n : Nat) :
    view b buffer head (n + 1) = buffer (head.toNat % b) :: view b buffer (head + 1) n := by
  simp [view, List.range_succ_eq_map, cell_zero, cell_succ, Function.comp_def]

theorem view_succ_concat (buffer : Nat → α) (head : UInt32) (n : Nat) :
    view b buffer head (n + 1) = view b buffer head n ++ [buffer (cell b head n)] := by
  simp [view, List.range_succ]

theorem view_update (hb : b ∣ 2 ^ 32) (buffer : Nat → α) (head : UInt32) {n : Nat} (hn : n < b) (x : α) :
    view b (Function.update buffer (cell b head n) x) head n = view b buffer head n := by
  unfold view
  refine List.map_congr_left fun i hi => ?_
  have hi' := List.mem_range.mp hi
  exact Function.update_of_ne (cell_ne hb head (by omega) hn (by omega)) _ _

theorem view_push (hb : b ∣ 2 ^ 32) (buffer : Nat → α) (head : UInt32) {n : Nat} (hn : n < b) (x : α) :
    view b (Function.update buffer (cell b head n) x) head (n + 1) = view b buffer head n ++ [x] := by
  rw [view_succ_concat, view_update hb buffer head hn, Function.update_self]

/-- The contents as the one or two slices of the buffer they occupy. -/
theorem view_slices (hb : b ∣ 2 ^ 32) (buffer : Nat → α) (head : UInt32) {n : Nat} (hn : n ≤ b) :
    view b buffer head n =
      if head.toNat % b + n ≤ b then ((List.range n).map fun i => buffer (head.toNat % b + i))
      else ((List.range (b - head.toNat % b)).map fun i => buffer (head.toNat % b + i)) ++
        ((List.range (n - (b - head.toNat % b))).map buffer) := by
  have hb0 : 0 < b := Nat.pos_of_dvd_of_pos hb (Nat.two_pow_pos 32)
  have hmod : ∀ k, cell b head k = (head.toNat % b + k) % b := by
    intro k
    unfold cell
    rw [UInt32.toNat_add, Nat.mod_mod_of_dvd _ hb, Nat.add_mod, Wrap.toNat_ofNat_mod hb]
    simp
  have hlt := Nat.mod_lt head.toNat hb0
  unfold view
  split
  case isTrue h =>
    refine List.map_congr_left fun i hi => ?_
    rw [hmod, Nat.mod_eq_of_lt (by have := List.mem_range.mp hi; omega)]
  case isFalse h =>
    obtain ⟨m, rfl⟩ : ∃ m, n = (b - head.toNat % b) + m := ⟨n - (b - head.toNat % b), by omega⟩
    rw [List.range_add, List.map_append, Nat.add_sub_cancel_left, List.map_map]
    congr 1
    · refine List.map_congr_left fun i hi => ?_
      rw [hmod, Nat.mod_eq_of_lt (by have := List.mem_range.mp hi; omega)]
    · refine List.map_congr_left fun i hi => ?_
      have := List.mem_range.mp hi
      rw [Function.comp_apply, hmod, show head.toNat % b + (b - head.toNat % b + i) = b + i by omega,
        Nat.add_mod_left, Nat.mod_eq_of_lt (by omega)]

end Ring
