import Acfqp.Library.Renamed

/-!
# Symmetries of a square board

The cells of a square in row-major order, the clockwise turn and the mirror image of its rows and
columns, and the renaming of the cells that they make. A symmetry keeps the distance of two cells.
-/

namespace Acfqp.Library

variable {n : ℕ}

/-- Left and right exchanged. -/
def mirror (n : ℕ) : Equiv.Perm (Fin n × Fin n) := Equiv.prodCongr (Equiv.refl _) Fin.revPerm

def turn (n : ℕ) : Equiv.Perm (Fin n × Fin n) := (Equiv.prodComm _ _).trans (mirror n)

/-- A mirror image where asked for, and then some turns. -/
def squareSymmetry (n : ℕ) (reflected : Bool) (turns : ℕ) : Equiv.Perm (Fin n × Fin n) :=
  turn n ^ turns * if reflected then mirror n else 1

def gridDistance (p q : Fin n × Fin n) : ℕ :=
  ((p.1 : ℤ) - q.1).natAbs + ((p.2 : ℤ) - q.2).natAbs

theorem natAbs_rev_sub (i j : Fin n) :
    ((i.rev : ℤ) - (j.rev : ℤ)).natAbs = ((i : ℤ) - (j : ℤ)).natAbs := by
  simp only [Fin.val_rev]
  omega

theorem gridDistance_mirror (p q : Fin n × Fin n) :
    gridDistance (mirror n p) (mirror n q) = gridDistance p q := by
  have hcolumn := natAbs_rev_sub p.2 q.2
  exact congrArg (((p.1 : ℤ) - q.1).natAbs + ·) hcolumn

theorem gridDistance_turn (p q : Fin n × Fin n) :
    gridDistance (turn n p) (turn n q) = gridDistance p q := by
  have hcolumn := natAbs_rev_sub p.1 q.1
  exact (congrArg (((p.2 : ℤ) - q.2).natAbs + ·) hcolumn).trans (Nat.add_comm _ _)

theorem gridDistance_squareSymmetry (reflected : Bool) (turns : ℕ) (p q : Fin n × Fin n) :
    gridDistance (squareSymmetry n reflected turns p) (squareSymmetry n reflected turns q) =
      gridDistance p q := by
  have hturns : ∀ p q : Fin n × Fin n,
      gridDistance ((turn n ^ turns) p) ((turn n ^ turns) q) = gridDistance p q := by
    induction turns with
    | zero => simp
    | succ turns ih =>
      intro p q
      rw [pow_succ, Equiv.Perm.mul_apply, Equiv.Perm.mul_apply, ih, gridDistance_turn]
  rw [squareSymmetry, Equiv.Perm.mul_apply, Equiv.Perm.mul_apply, hturns]
  cases reflected
  · rfl
  · exact gridDistance_mirror p q

/-! ## Cells in row-major order -/

/-- The row and the column of a cell. -/
def place {cell : ℕ} (h : cell < n * n) : Fin n × Fin n := finProdFinEquiv.symm ⟨cell, h⟩

@[simp] theorem place_fst {cell : ℕ} (h : cell < n * n) : ((place h).1 : ℕ) = cell / n := rfl

@[simp] theorem place_snd {cell : ℕ} (h : cell < n * n) : ((place h).2 : ℕ) = cell % n := rfl

def symmetryCells (n : ℕ) (reflected : Bool) (turns : ℕ) : Equiv.Perm ℕ :=
  cells (finProdFinEquiv.permCongr (squareSymmetry n reflected turns))

theorem keeps_symmetryCells (reflected : Bool) (turns : ℕ) :
    Keeps (symmetryCells n reflected turns) (n * n) := keeps_cells _

theorem symmetryCells_of_lt (reflected : Bool) (turns : ℕ) {cell : ℕ} (h : cell < n * n) :
    symmetryCells n reflected turns cell =
      (squareSymmetry n reflected turns (place h)).1 * n +
        (squareSymmetry n reflected turns (place h)).2 := by
  rw [symmetryCells, cells_of_lt _ h]
  change ((finProdFinEquiv (squareSymmetry n reflected turns (place h)) : Fin (n * n)) : ℕ) = _
  rw [finProdFinEquiv_apply_val, mul_comm, add_comm]

theorem place_symmetryCells (reflected : Bool) (turns : ℕ) {cell : ℕ} (h : cell < n * n)
    (h' : symmetryCells n reflected turns cell < n * n) :
    place h' = squareSymmetry n reflected turns (place h) := by
  refine (Equiv.symm_apply_eq _).mpr (Fin.ext ?_)
  change symmetryCells n reflected turns cell = _
  rw [symmetryCells_of_lt _ _ h, finProdFinEquiv_apply_val, mul_comm, add_comm]

theorem gridDistance_symmetryCells (reflected : Bool) (turns : ℕ) {c d : ℕ} (hc : c < n * n)
    (hd : d < n * n) (hc' : symmetryCells n reflected turns c < n * n)
    (hd' : symmetryCells n reflected turns d < n * n) :
    gridDistance (place hc') (place hd') = gridDistance (place hc) (place hd) := by
  rw [place_symmetryCells _ _ hc, place_symmetryCells _ _ hd, gridDistance_squareSymmetry]

end Acfqp.Library

/-!
## Products of the symmetries of a square

Four turns do nothing, a mirror image undoes itself, and a turn before it is three turns after it.
A product of symmetries is therefore again a mirror image and some turns, and the renamings of the
cells multiply in the same way.
-/

namespace Acfqp.Library

variable {n : ℕ}

theorem turn_pow_four : turn n ^ 4 = 1 := by
  ext p : 1
  obtain ⟨i, j⟩ := p
  simp [pow_succ, turn, mirror]

theorem mirror_mul_self : mirror n * mirror n = 1 := by
  ext p : 1
  obtain ⟨i, j⟩ := p
  simp [mirror]

theorem mirror_mul_turn : mirror n * turn n = turn n ^ 3 * mirror n := by
  ext p : 1
  obtain ⟨i, j⟩ := p
  simp [pow_succ, turn, mirror]

theorem mirror_mul_turn_pow (turns : ℕ) :
    mirror n * turn n ^ turns = turn n ^ (3 * turns) * mirror n := by
  induction turns with
  | zero => simp
  | succ turns ih =>
    rw [pow_succ, ← mul_assoc, ih, mul_assoc, mirror_mul_turn, ← mul_assoc, ← pow_add]
    congr 2

theorem turn_pow_mod (turns : ℕ) : turn n ^ (turns % 4) = turn n ^ turns :=
  (pow_eq_pow_mod turns turn_pow_four).symm

theorem squareSymmetry_mod (reflected : Bool) (turns : ℕ) :
    squareSymmetry n reflected (turns % 4) = squareSymmetry n reflected turns := by
  rw [squareSymmetry, turn_pow_mod, squareSymmetry]

theorem squareSymmetry_mul (reflected reflected' : Bool) (turns turns' : ℕ) :
    squareSymmetry n reflected turns * squareSymmetry n reflected' turns' =
      squareSymmetry n (reflected ^^ reflected')
        (turns + if reflected then 3 * turns' else turns') := by
  cases reflected with
  | false =>
    simp only [squareSymmetry, Bool.false_eq_true, if_false, mul_one, Bool.false_xor, pow_add,
      mul_assoc]
  | true =>
    have hpast : squareSymmetry n true turns * squareSymmetry n reflected' turns' =
        turn n ^ (turns + 3 * turns') * (mirror n * if reflected' then mirror n else 1) := by
      simp only [squareSymmetry, if_true]
      rw [mul_assoc, ← mul_assoc (mirror n), mirror_mul_turn_pow, pow_add]
      simp only [mul_assoc]
    rw [hpast]
    cases reflected' with
    | false => simp [squareSymmetry]
    | true => simp [squareSymmetry, mirror_mul_self]

theorem cells_mul (π ρ : Equiv.Perm (Fin n)) : cells (π * ρ) = cells π * cells ρ :=
  (Equiv.Perm.extendDomain_mul _ _ _).symm

theorem symmetryCells_mul (reflected reflected' : Bool) (turns turns' : ℕ) :
    symmetryCells n reflected turns * symmetryCells n reflected' turns' =
      symmetryCells n (reflected ^^ reflected')
        ((turns + if reflected then 3 * turns' else turns') % 4) := by
  unfold symmetryCells
  rw [squareSymmetry_mod, ← squareSymmetry_mul, Equiv.permCongr_mul, cells_mul]

theorem symmetryCells_one : symmetryCells n false 0 = 1 := by
  have hsymmetry : squareSymmetry n false 0 = 1 := by simp [squareSymmetry]
  have hcongr : finProdFinEquiv.permCongr (1 : Equiv.Perm (Fin n × Fin n)) = 1 :=
    map_one (Equiv.permCongrHom finProdFinEquiv)
  rw [symmetryCells, hsymmetry, hcongr, cells, Equiv.Perm.extendDomain_one]

/-- Renaming twice renames by the product. -/
theorem relabelRanks_mul {σ τ : Equiv.Perm ℕ} {ranks : List ℕ} (hτ : Keeps τ ranks.length) :
    relabelRanks (σ * τ) ranks = relabelRanks σ (relabelRanks τ ranks) := by
  have hget : ∀ v, (relabelRanks τ ranks).getD v 0 = ranks.getD (τ.symm v) 0 := by
    intro v
    have := getElem?_relabelRanks hτ (τ.symm v)
    rw [Equiv.apply_symm_apply] at this
    rw [List.getD_eq_getElem?_getD, this, List.getD_eq_getElem?_getD]
  simp only [relabelRanks, List.length_map, List.length_range]
  refine List.map_congr_left fun v _ => ?_
  exact (hget (σ.symm v)).symm

end Acfqp.Library
