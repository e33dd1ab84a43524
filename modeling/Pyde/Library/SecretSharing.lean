/-
Module: Pyde.Library.SecretSharing
Purpose: Secret sharing over a field. A secret is the constant coefficient of a polynomial, a share is
  the polynomial's value at a point, and interpolation at zero gives the secret back from as many shares
  as there are coefficients, whatever the points and whatever their order.
Trusted boundary: none
-/
import Mathlib.LinearAlgebra.Lagrange
import Mathlib.Tactic

namespace SecretSharing

open Polynomial List

/-- A point and the value of the polynomial there. -/
structure FieldShare (F : Type*) where
  x : F
  y : F

variable {F : Type*} [Field F]

/-- The value at `x`, with one turn per coefficient that adds its term and raises the power. -/
def evaluate (coeffs : List F) (x : F) : F :=
  (coeffs.foldl (fun acc c => (acc.1 + c * acc.2, acc.2 * x)) ((0 : F), (1 : F))).1

/-- The weight of share `i` at zero. -/
def basisAtZero (shares : List (FieldShare F)) (i : Fin shares.length) : F :=
  (List.finRange shares.length).foldl (fun basis j =>
    if i ≠ j then basis * ((0 - (shares.get j).x) * ((shares.get i).x - (shares.get j).x)⁻¹)
    else basis) 1

def reconstruct (shares : List (FieldShare F)) : F :=
  (List.finRange shares.length).foldl
    (fun res i => res + (shares.get i).y * basisAtZero shares i) 0

/-- The weight of share `i` at a point. -/
def basisAt (shares : List (FieldShare F)) (x : F) (i : Fin shares.length) : F :=
  (List.finRange shares.length).foldl (fun basis j =>
    if i ≠ j then basis * ((x - (shares.get j).x) * ((shares.get i).x - (shares.get j).x)⁻¹)
    else basis) 1

def interpolateAt (shares : List (FieldShare F)) (x : F) : F :=
  (List.finRange shares.length).foldl (fun res i => res + (shares.get i).y * basisAt shares x i) 0

variable (coeffs : List F) (shares : List (FieldShare F))

theorem reconstruct_eq_interpolateAt : reconstruct shares = interpolateAt shares 0 := rfl

/-! ### The polynomial behind the shares -/

/-- The polynomial with the listed coefficients, constant term first. -/
noncomputable def polynomial : List F → F[X]
  | [] => 0
  | c :: cs => C c + X * polynomial cs

theorem polynomial_degree_lt : (polynomial coeffs).degree < coeffs.length := by
  rw [degree_lt_iff_coeff_zero]
  induction coeffs with
  | nil => simp [polynomial]
  | cons c cs ih =>
    intro m hm
    obtain ⟨k, rfl⟩ : ∃ k, m = k + 1 := ⟨m - 1, by simp only [length_cons] at hm; omega⟩
    have hk : cs.length ≤ k := by simpa using hm
    simp [polynomial, coeff_X_mul, coeff_C_succ, ih k hk]

theorem polynomial_eval_zero (c : F) (cs : List F) : (polynomial (c :: cs)).eval 0 = c := by
  simp [polynomial]

/-- The loop adds what is left of the polynomial, scaled by the power reached. -/
theorem foldl_evaluate (x y power : F) : (coeffs.foldl (fun acc c => (acc.1 + c * acc.2, acc.2 * x)) (y, power)).1 =
      y + power * (polynomial coeffs).eval x := by
  induction coeffs generalizing y power with
  | nil => simp [polynomial]
  | cons c cs ih =>
    rw [foldl_cons, ih]
    simp only [polynomial, eval_add, eval_C, eval_mul, eval_X]
    ring

theorem evaluate_eq_eval (x : F) : evaluate coeffs x = (polynomial coeffs).eval x := by
  rw [evaluate, foldl_evaluate]
  ring

/-! ### Interpolation -/

theorem foldl_mul_ite {ι : Type*} (indices : List ι) (p : ι → Prop) [DecidablePred p] (g : ι → F) (a : F) :
    indices.foldl (fun acc j => if p j then acc * g j else acc) a =
      a * (indices.map fun j => if p j then g j else 1).prod := by
  induction indices generalizing a with
  | nil => simp
  | cons j indices ih =>
    rw [foldl_cons, ih, map_cons, prod_cons]
    split <;> ring

theorem foldl_add_eq {ι : Type*} (indices : List ι) (g : ι → F) (a : F) :
    indices.foldl (fun acc i => acc + g i) a = a + (indices.map g).sum := by
  induction indices generalizing a with
  | nil => simp
  | cons i indices ih =>
    rw [foldl_cons, ih, map_cons, sum_cons]
    ring

/-- The weight of a share is its Lagrange basis polynomial at the point. -/
theorem basisAt_eq (x : F) (i : Fin shares.length) :
    basisAt shares x i = (Lagrange.basis Finset.univ (fun j => (shares.get j).x) i).eval x := by
  have hdivisor : ∀ j, (Lagrange.basisDivisor (shares.get i).x (shares.get j).x).eval x =
      (x - (shares.get j).x) * ((shares.get i).x - (shares.get j).x)⁻¹ := by
    intro j
    simp only [Lagrange.basisDivisor, eval_mul, eval_C, eval_sub, eval_X]
    ring
  rw [basisAt, foldl_mul_ite, one_mul, ← Fin.prod_univ_def, Lagrange.basis, eval_prod,
    ← Finset.prod_filter, Finset.filter_ne]
  exact Finset.prod_congr rfl fun j _ => (hdivisor j).symm

/-- The polynomial through the shares. -/
noncomputable def interpolant (shares : List (FieldShare F)) : F[X] :=
  Lagrange.interpolate Finset.univ (fun j => (shares.get j).x) fun j => (shares.get j).y

theorem interpolateAt_eq_eval (x : F) : interpolateAt shares x = (interpolant shares).eval x := by
  rw [interpolateAt, foldl_add_eq, zero_add, ← Fin.sum_univ_def, interpolant, Lagrange.interpolate_apply,
    eval_finsetSum]
  refine Finset.sum_congr rfl fun i _ => ?_
  rw [eval_mul, eval_C, basisAt_eq]

section Distinct

variable {shares : List (FieldShare F)} (hdistinct : (shares.map FieldShare.x).Nodup)

include hdistinct

omit [Field F] in
theorem injOn_points : Set.InjOn (fun j => (shares.get j).x) (Finset.univ : Finset (Fin shares.length)) := by
  intro i _ j _ hij
  have hget := List.nodup_iff_injective_get.mp hdistinct
  have hcast := @hget (i.cast (by simp)) (j.cast (by simp)) (by simpa using hij)
  exact Fin.ext (by simpa using congrArg Fin.val hcast)

theorem interpolant_degree_lt : (interpolant shares).degree < shares.length := by
  have hdegree := Lagrange.degree_interpolate_lt (fun j => (shares.get j).y) (injOn_points hdistinct)
  rwa [Finset.card_univ, Fintype.card_fin] at hdegree

theorem interpolant_eval {share : FieldShare F} (hshare : share ∈ shares) :
    (interpolant shares).eval share.x = share.y := by
  obtain ⟨i, rfl⟩ := List.mem_iff_get.mp hshare
  exact Lagrange.eval_interpolate_at_node (fun j => (shares.get j).y) (injOn_points hdistinct) (Finset.mem_univ i)

section

variable {p : F[X]} (hdegree : p.degree < shares.length) (hvalues : ∀ share ∈ shares, share.y = p.eval share.x)
include hdegree hvalues

/-- A polynomial of low degree through the shares is the one that is interpolated. -/
theorem interpolant_eq : interpolant shares = p := by
  have hcard : p.degree < (Finset.univ : Finset (Fin shares.length)).card := by
    rwa [Finset.card_univ, Fintype.card_fin]
  exact (Lagrange.eq_interpolate_of_eval_eq (fun j => (shares.get j).y) (injOn_points hdistinct) hcard
    fun i _ => (hvalues _ (get_mem shares i)).symm).symm

/-- Shares of a polynomial of low degree give its value at zero. -/
theorem reconstruct_eq_eval : reconstruct shares = p.eval 0 := by
  rw [reconstruct_eq_interpolateAt, interpolateAt_eq_eval, interpolant_eq hdistinct hdegree hvalues]

end

end Distinct

/-- As many shares as there are coefficients, at different points, give the secret. -/
theorem reconstruct_evaluate (secret : F) (rest : List F) (shares : List (FieldShare F))
    (hcount : shares.length = (secret :: rest).length) (hdistinct : (shares.map FieldShare.x).Nodup)
    (hvalues : ∀ share ∈ shares, share.y = evaluate (secret :: rest) share.x) : reconstruct shares = secret := by
  have hdegree : (polynomial (secret :: rest)).degree < shares.length := by
    rw [hcount]
    exact polynomial_degree_lt _
  rw [reconstruct_eq_eval hdistinct hdegree, polynomial_eval_zero]
  intro share hshare
  rw [hvalues share hshare, evaluate_eq_eval]

/-! ### Shares that agree -/

/-- The shares are values of one polynomial with fewer coefficients than the bound. -/
def OnPolynomial (bound : Nat) (shares : List (FieldShare F)) : Prop :=
  ∃ p : F[X], p.degree < bound ∧ ∀ share ∈ shares, share.y = p.eval share.x

/-- A choice of as many shares as are needed, at different points. -/
structure Chosen (bound : Nat) (shares chosen : List (FieldShare F)) : Prop where
  subset : chosen ⊆ shares
  distinct : (chosen.map FieldShare.x).Nodup
  length : chosen.length = bound

/-- No two choices of as many shares as are needed disagree about the secret. -/
def Agree (bound : Nat) (shares : List (FieldShare F)) : Prop :=
  ∀ chosen chosen', Chosen bound shares chosen → Chosen bound shares chosen' →
    reconstruct chosen = reconstruct chosen'

theorem OnPolynomial.agree {bound : Nat} {shares : List (FieldShare F)} (h : OnPolynomial bound shares) :
    Agree bound shares := by
  obtain ⟨p, hdegree, hvalues⟩ := h
  have hsecret : ∀ chosen, Chosen bound shares chosen → reconstruct chosen = p.eval 0 := by
    intro chosen hchosen
    exact reconstruct_eq_eval hchosen.distinct (by rw [hchosen.length]; exact hdegree)
      fun share hshare => hvalues share (hchosen.subset hshare)
  intro chosen chosen' hchosen hchosen'
  rw [hsecret chosen hchosen, hsecret chosen' hchosen']

/-- If a share takes the place of another and the secret stays the same, the polynomial stays the same. -/
theorem eval_of_exchange {first other : FieldShare F} {rest : List (FieldShare F)}
    (hfirst : ((first :: rest).map FieldShare.x).Nodup) (hother : ((other :: rest).map FieldShare.x).Nodup)
    (hnonzero : ∀ share ∈ rest, share.x ≠ 0)
    (hagree : reconstruct (first :: rest) = reconstruct (other :: rest)) :
    other.y = (interpolant (first :: rest)).eval other.x := by
  have hzero : ((⟨0, reconstruct (first :: rest)⟩ :: rest).map FieldShare.x).Nodup := by
    rw [map_cons, nodup_cons]
    refine ⟨fun hmem => ?_, (List.nodup_cons.mp hfirst).2⟩
    obtain ⟨share, hshare, hx⟩ := List.mem_map.mp hmem
    exact hnonzero share hshare hx
  -- both polynomials go through the point at zero and the shares that stay
  have hthrough : ∀ share : FieldShare F, ((share :: rest).map FieldShare.x).Nodup →
      reconstruct (share :: rest) = reconstruct (first :: rest) →
        interpolant (⟨0, reconstruct (first :: rest)⟩ :: rest) = interpolant (share :: rest) := by
    intro share hdistinct hsame
    apply interpolant_eq hzero
    · exact interpolant_degree_lt hdistinct
    · rw [forall_mem_cons]
      refine ⟨?_, fun kept hkept => (interpolant_eval hdistinct (mem_cons_of_mem _ hkept)).symm⟩
      rw [← interpolateAt_eq_eval, ← reconstruct_eq_interpolateAt, hsame]
  rw [← hthrough first hfirst rfl, hthrough other hother hagree.symm]
  exact (interpolant_eval hother mem_cons_self).symm

/-- Shares at different points besides zero agree about the secret exactly if they lie on one polynomial. -/
theorem agree_iff_onPolynomial {bound : Nat} (hbound : 1 ≤ bound) {shares : List (FieldShare F)}
    (hdistinct : (shares.map FieldShare.x).Nodup) (hnonzero : ∀ share ∈ shares, share.x ≠ 0) :
    Agree bound shares ↔ OnPolynomial bound shares := by
  refine ⟨fun hagree => ?_, OnPolynomial.agree⟩
  rcases Nat.lt_or_ge shares.length bound with hfew | henough
  · -- too few shares to disagree
    refine ⟨interpolant shares, (interpolant_degree_lt hdistinct).trans ?_, fun share hshare =>
      (interpolant_eval hdistinct hshare).symm⟩
    exact_mod_cast hfew
  -- the first shares give the polynomial
  have hsub : shares.take bound ⊆ shares := take_subset bound shares
  have hlength : (shares.take bound).length = bound := by rw [length_take, Nat.min_eq_left henough]
  have hfirst : ((shares.take bound).map FieldShare.x).Nodup :=
    hdistinct.sublist ((take_sublist bound shares).map _)
  refine ⟨interpolant (shares.take bound), ?_, fun share hshare => ?_⟩
  · have hdegree := interpolant_degree_lt hfirst
    rwa [hlength] at hdegree
  · cases htake : shares.take bound with
    | nil =>
      rw [htake, length_nil] at hlength
      omega
    | cons first rest =>
      rw [htake] at hfirst hsub hlength
      by_cases hin : share.x ∈ (first :: rest).map FieldShare.x
      · obtain ⟨same, hsame, hx⟩ := List.mem_map.mp hin
        have heq : same = share := inj_on_of_nodup_map hdistinct (hsub hsame) hshare hx
        rw [← heq]
        exact (interpolant_eval hfirst hsame).symm
      have hexchanged : ((share :: rest).map FieldShare.x).Nodup := by
        rw [map_cons, nodup_cons]
        exact ⟨fun hmem => hin (mem_cons_of_mem _ hmem), (List.nodup_cons.mp hfirst).2⟩
      have hrest : rest ⊆ shares := fun kept hkept => hsub (mem_cons_of_mem _ hkept)
      apply eval_of_exchange hfirst hexchanged (fun kept hkept => hnonzero kept (hrest hkept))
      exact hagree _ _ ⟨hsub, hfirst, hlength⟩ ⟨List.cons_subset.mpr ⟨hshare, hrest⟩, hexchanged, hlength⟩

/-! ### Combining with fixed weights -/

/-- The weights at zero of shares at the listed points. -/
def weightsAtZero (xs : List F) : List F :=
  (List.finRange xs.length).map fun i =>
    (List.finRange xs.length).foldl (fun basis j =>
      if i ≠ j then basis * ((0 - xs.get j) * (xs.get i - xs.get j)⁻¹) else basis) 1

theorem finRange_cast {m n : Nat} (h : m = n) : List.finRange n = (List.finRange m).map (Fin.cast h) := by
  subst h
  simp

theorem weightsAtZero_map :
    weightsAtZero (shares.map FieldShare.x) = (List.finRange shares.length).map (basisAtZero shares) := by
  have hlength : shares.length = (shares.map FieldShare.x).length := by simp
  rw [weightsAtZero, finRange_cast hlength, map_map]
  refine map_congr_left fun i _ => ?_
  simp only [Function.comp_apply, foldl_map, basisAtZero, ne_eq, Fin.cast_inj, get_eq_getElem,
    Fin.val_cast, getElem_map]

/-- Interpolation at zero adds up the values with the weights of their points. -/
theorem reconstruct_eq_weighted : reconstruct shares =
      (List.zipWith (· * ·) (weightsAtZero (shares.map FieldShare.x)) (shares.map FieldShare.y)).sum := by
  have hvalues : shares.map FieldShare.y = (List.finRange shares.length).map fun i => (shares.get i).y := by
    apply ext_getElem
    · simp
    · intro i hi hi'
      simp
  rw [reconstruct, foldl_add_eq, zero_add, weightsAtZero_map, hvalues, zipWith_map, zipWith_self]
  exact congrArg List.sum (map_congr_left fun i _ => mul_comm _ _)

/-- Polynomials of low degree, added up with the weights of the points they belong to. -/
theorem exists_combination (bound : Nat) (entries : List (F × F[X]))
    (hdegree : ∀ entry ∈ entries, entry.2.degree < bound) :
    ∃ h : F[X], h.degree < bound ∧
      ∀ z, h.eval z = reconstruct (entries.map fun entry => ⟨entry.1, entry.2.eval z⟩) := by
  -- the weights stay the same along the polynomials
  have hsum : ∀ (weights : List F) (polynomials : List F[X]), (∀ g ∈ polynomials, g.degree < bound) →
      ∃ h : F[X], h.degree < bound ∧
        ∀ z, h.eval z = (List.zipWith (· * ·) weights (polynomials.map (eval z))).sum := by
    intro weights polynomials hbound
    induction weights generalizing polynomials with
    | nil => exact ⟨0, by simp, by simp⟩
    | cons weight weights ih =>
      cases polynomials with
      | nil => exact ⟨0, by simp, by simp⟩
      | cons g polynomials =>
        rw [forall_mem_cons] at hbound
        obtain ⟨h, hdegree, hvalue⟩ := ih polynomials hbound.2
        refine ⟨weight • g + h, ?_, fun z => by simp [hvalue]⟩
        exact (degree_add_le _ _).trans_lt (max_lt ((degree_smul_le weight g).trans_lt hbound.1) hdegree)
  obtain ⟨h, hbound, hvalue⟩ := hsum (weightsAtZero (entries.map Prod.fst)) (entries.map Prod.snd) fun g hg => by
    obtain ⟨entry, hentry, rfl⟩ := List.mem_map.mp hg
    exact hdegree entry hentry
  refine ⟨h, hbound, fun z => ?_⟩
  rw [hvalue, reconstruct_eq_weighted]
  simp only [map_map, Function.comp_def]

end SecretSharing
