/-
Module: Pyde.Crypto.Resharing
Purpose: Refreshing a sharing, and resharing a secret to another committee: each old member shares its own share,
  and every new member adds up what it got with the weights of the same old members.
Trusted boundary: Prims
-/
import Pyde.Crypto.ThresholdDecryption

namespace Pyde

open ByteCodec SecretSharing Polynomial List

/-- The point of the member at position `v`. -/
def memberPoint (v : Nat) : GoldilocksField := gl (BitVec.ofNat 64 (v + 1))

/-! ### Sharings -/

/-- The parameters of a sharing: at least one share is needed, no more than there are, and every member has a point of
its own besides zero. -/
structure SharingParams where
  n : Nat
  t : Nat
  one_le : 1 ≤ t
  t_le : t ≤ n
  fits : n < goldilocksPrime

/-- The shares of a secret: one for each member, with the members' values of polynomials of low degree. -/
structure Sharing (params : SharingParams) (secret : Nat → GoldilocksField) (shares : List KeyShare) : Prop where
  indices : shares.map KeyShare.index = List.range' 1 params.n
  width : ∀ keyShare ∈ shares, keyShare.shares.length = seedElements
  onPolynomial : ∀ elemIdx < seedElements, ∃ p : GoldilocksField[X], p.degree < params.t ∧
      p.eval 0 = secret elemIdx ∧
    ∀ keyShare ∈ shares, keyShare.shares[elemIdx]? = some (p.eval (gl (BitVec.ofNat 64 keyShare.index)))

/-- One element of the shares, as points. -/
def elementShares (shares : List KeyShare) (elemIdx : Nat) : List (FieldShare GoldilocksField) :=
  shares.map fun keyShare => ⟨gl (BitVec.ofNat 64 keyShare.index), keyShare.shares.getD elemIdx 0⟩

/-- The chosen shares, as many as the threshold says, give the secret. -/
def Reconstructs (params : SharingParams) (secret : Nat → GoldilocksField) (shares : List KeyShare) : Prop :=
  ∀ chosen : List KeyShare, chosen.Nodup → chosen ⊆ shares → chosen.length = params.t →
    ∀ elemIdx < seedElements, shamirReconstruct (elementShares chosen elemIdx) = secret elemIdx

section

variable {params : SharingParams} {secret : Nat → GoldilocksField} {shares : List KeyShare}

theorem Sharing.index_mem (h : Sharing params secret shares) {keyShare : KeyShare} (hmem : keyShare ∈ shares) :
    1 ≤ keyShare.index ∧ keyShare.index ≤ params.n := by
  have hindex : keyShare.index ∈ List.range' 1 params.n := h.indices ▸ mem_map_of_mem hmem
  have hrange := mem_range'_1.mp hindex
  omega

theorem Sharing.eq_of_index (h : Sharing params secret shares) {a b : KeyShare} (ha : a ∈ shares) (hb : b ∈ shares)
    (hindex : a.index = b.index) : a = b := by
  have hnodup : (shares.map KeyShare.index).Nodup := h.indices ▸ nodup_range'
  exact inj_on_of_nodup_map hnodup ha hb hindex

theorem Sharing.reconstructs (h : Sharing params secret shares) : Reconstructs params secret shares := by
  intro chosen hnodup hsub hlength elemIdx helem
  obtain ⟨p, hdegree, hsecret, hvalues⟩ := h.onPolynomial elemIdx helem
  have hcount : (elementShares chosen elemIdx).length = params.t := by rw [elementShares, length_map, hlength]
  have hdistinct : ((elementShares chosen elemIdx).map FieldShare.x).Nodup := by
    rw [elementShares, map_map]
    refine hnodup.map_on fun a ha b hb hpoints => ?_
    have hrangeA := h.index_mem (hsub ha)
    have hrangeB := h.index_mem (hsub hb)
    have hfits := params.fits
    exact h.eq_of_index (hsub ha) (hsub hb) (gl_ofNat_inj (by omega) (by omega) hpoints)
  rw [shamirReconstruct, reconstruct_eq_eval hdistinct (by rw [hcount]; exact hdegree), hsecret]
  intro share hshare
  obtain ⟨keyShare, hmem, rfl⟩ := List.mem_map.mp hshare
  simp [getD_eq_getElem?_getD, hvalues keyShare (hsub hmem)]

end

/-! ### Honest contributions -/

/-- One value of a table of splits that has been turned around. -/
theorem getD_transposed {rows : List (List (FieldShare GoldilocksField))} {n v elemIdx : Nat} (hv : v < n)
    (helem : elemIdx < rows.length) :
    (((List.range n).map fun v => rows.map fun row => (row.getD v ⟨0, 0⟩).y).getD v []).getD elemIdx 0 =
      ((rows.get ⟨elemIdx, helem⟩).getD v ⟨0, 0⟩).y := by
  simp [getD_eq_getElem?_getD, hv, helem]

/-- The shares of a line: three members, of whom two are enough. -/
def lineParams : SharingParams := ⟨3, 2, by decide, by decide, by decide⟩

def lineShares : List KeyShare :=
  [1, 2, 3].map fun index => ⟨index, List.replicate seedElements (5 + 7 * gl (BitVec.ofNat 64 index))⟩

theorem lineShares_sharing : Sharing lineParams (fun _ => 5) lineShares where
  indices := rfl
  width := by decide
  onPolynomial := by
    intro elemIdx helem
    refine ⟨C 7 * X + C 5, ?_, by simp, ?_⟩
    · exact (degree_linear_le).trans_lt (by decide)
    · intro keyShare hmem
      obtain ⟨index, -, rfl⟩ := List.mem_map.mp hmem
      rw [List.getElem?_replicate, if_pos helem]
      simp only [eval_add, eval_mul, eval_C, eval_X, add_comm]

/-- `ResharingContribution`: one row for each new member, with one value for each element of the seed. -/
structure ResharingContribution where
  fromOldIndex : Nat
  subShares : List (List GoldilocksField)
deriving DecidableEq

/-- `sub_shares[v][elem_idx]`. -/
def ResharingContribution.subShare (contribution : ResharingContribution) (v elemIdx : Nat) : GoldilocksField :=
  (contribution.subShares.getD v []).getD elemIdx 0

/-- The domain tag of `generate_resharing_contribution`. -/
def reshareDomain : Bytes := ascii "pyde-reshare"

/-- `generate_resharing_contribution`: an old share without all elements aborts. -/
def generateResharingContribution (P : Prims) (oldShare : KeyShare) (newN newThreshold : Nat) (epoch : U64)
    (entropy : Bytes) : Except Fault ResharingContribution := do
  let domEntropy := P.poseidon2Hash
    (entropy ++ (reshareDomain ++ (toLe epoch ++ toLe (BitVec.ofNat 64 oldShare.index))))
  let perElem ← (List.range seedElements).mapM fun elemIdx =>
    match oldShare.shares[elemIdx]? with
    | none => .error .panicked
    | some value => shamirSplit P value newN newThreshold domEntropy elemIdx
  -- Each row of the split has one share per new member, so the lookups never miss.
  pure
    { fromOldIndex := oldShare.index
      subShares := (List.range newN).map fun v => perElem.map fun row => (row.getD v ⟨0, 0⟩).y }

/-- `canonical_resharing_subset`: the contributions with the lowest indices. -/
def canonicalResharingSubset (pool : List ResharingContribution) (oldThreshold : Nat) :
    Option (List ResharingContribution) :=
  if pool.length < oldThreshold then none
  else some ((pool.insertionSort fun a b => a.fromOldIndex ≤ b.fromOldIndex).take oldThreshold)

/-- `aggregate_new_share`. For two equal old indices `gl_inv` panics, where the model has `0⁻¹ = 0`. -/
def aggregateNewShare (newIndex : Nat) (canonical : List ResharingContribution) : Option KeyShare :=
  match canonical with
  | [] => none
  | first :: _ =>
    if newIndex = 0 then none
    else if first.subShares.length ≤ newIndex - 1 then none
    else if canonical.any fun c => decide (c.subShares.length ≠ first.subShares.length) ||
        decide ((c.subShares.getD (newIndex - 1) []).length ≠ seedElements) then none
    else
      let lambdas := weightsAtZero (canonical.map fun c => gl (BitVec.ofNat 64 c.fromOldIndex))
      some
        { index := newIndex
          shares := (List.range seedElements).map fun elemIdx =>
            (lambdas.zip canonical).foldl
              (fun sum entry => sum + entry.1 * entry.2.subShare (newIndex - 1) elemIdx) 0 }

/-! ### What a contribution carries -/

/-- What a new member can do with a contribution: the values are those of polynomials through the old share. -/
structure Carries (new : SharingParams) (contribution : ResharingContribution) (oldShare : KeyShare) : Prop where
  index : contribution.fromOldIndex = oldShare.index
  rows : contribution.subShares.length = new.n
  width : ∀ row ∈ contribution.subShares, row.length = seedElements
  onPolynomial : ∀ elemIdx < seedElements, ∃ g : GoldilocksField[X], g.degree < new.t ∧
    oldShare.shares[elemIdx]? = some (g.eval 0) ∧
      ∀ v < new.n, contribution.subShare v elemIdx = g.eval (memberPoint v)

theorem carries_of_generate {P : Prims} {new : SharingParams} {oldShare : KeyShare} {epoch : U64}
    {entropy : Bytes} {contribution : ResharingContribution}
    (h : generateResharingContribution P oldShare new.n new.t epoch entropy = .ok contribution) :
    Carries new contribution oldShare := by
  obtain ⟨rows, hrows, hresult⟩ := bind_eq_ok h
  cases hresult
  have hall := forall₂_of_mapM_eq_ok hrows
  have hcount : rows.length = seedElements := by rw [← hall.length_eq, length_range]
  refine ⟨rfl, by simp, ?_, ?_⟩
  · intro row hrow
    obtain ⟨v, -, rfl⟩ := List.mem_map.mp hrow
    rw [length_map, hcount]
  · intro elemIdx helem
    have hlt : elemIdx < rows.length := by rwa [hcount]
    have hsplit := hall.get (by rwa [length_range]) hlt
    simp only [get_eq_getElem, getElem_range] at hsplit
    split at hsplit
    · cases hsplit
    rename_i value hvalue
    obtain ⟨rest, hrest, hvalues⟩ := shamirSplit_ok hsplit
    refine ⟨polynomial (value :: rest), ?_, ?_, fun v hv => ?_⟩
    · have hpositive := new.one_le
      have hlength : (value :: rest).length = new.t := by
        rw [length_cons]
        omega
      rw [← hlength]
      exact polynomial_degree_lt _
    · rw [polynomial_eval_zero, hvalue]
    · rw [← evaluate_eq_eval]
      exact (getD_transposed hv hlt).trans (congrArg FieldShare.y (hvalues v hv))

/-! ### The canonical subset -/

theorem canonicalResharingSubset_eq_some {pool : List ResharingContribution} {oldThreshold : Nat}
    (henough : oldThreshold ≤ pool.length) :
    canonicalResharingSubset pool oldThreshold =
      some ((pool.insertionSort fun a b => a.fromOldIndex ≤ b.fromOldIndex).take oldThreshold) := by
  rw [canonicalResharingSubset, if_neg (Nat.not_lt.mpr henough)]

/-- Contributions of different members are sorted the same way in whatever order they came. -/
theorem insertionSort_perm {pool contributions : List ResharingContribution} (hperm : pool.Perm contributions)
    (hdistinct : (contributions.map ResharingContribution.fromOldIndex).Nodup) :
    (pool.insertionSort fun a b => a.fromOldIndex ≤ b.fromOldIndex) =
      contributions.insertionSort fun a b => a.fromOldIndex ≤ b.fromOldIndex := by
  have hsorted : ∀ l : List ResharingContribution,
      (l.insertionSort fun a b => a.fromOldIndex ≤ b.fromOldIndex).Pairwise
        fun a b => a.fromOldIndex ≤ b.fromOldIndex :=
    fun l => pairwise_insertionSort (fun a b : ResharingContribution => a.fromOldIndex ≤ b.fromOldIndex) l
  have hsame : (pool.insertionSort fun a b => a.fromOldIndex ≤ b.fromOldIndex).Perm
      (contributions.insertionSort fun a b => a.fromOldIndex ≤ b.fromOldIndex) :=
    (perm_insertionSort _ _).trans (hperm.trans (perm_insertionSort _ _).symm)
  apply hsame.eq_of_pairwise _ (hsorted pool) (hsorted contributions)
  intro a b ha hb hab hba
  have ha' := hperm.mem_iff.mp ((perm_insertionSort _ _).mem_iff.mp ha)
  have hb' := (perm_insertionSort _ _).mem_iff.mp hb
  exact inj_on_of_nodup_map hdistinct ha' hb' (Nat.le_antisymm hab hba)

/-! ### New shares -/

/-- One element of what the old members have sent to a new member, as points. -/
def sentShares (canonical : List ResharingContribution) (v elemIdx : Nat) : List (FieldShare GoldilocksField) :=
  canonical.map fun c => ⟨gl (BitVec.ofNat 64 c.fromOldIndex), c.subShare v elemIdx⟩

/-- The share that interpolates what the old members have sent. -/
def interpolatedShare (canonical : List ResharingContribution) (newIndex : Nat) : KeyShare where
  index := newIndex
  shares := (List.range seedElements).map fun elemIdx => reconstruct (sentShares canonical (newIndex - 1) elemIdx)

theorem aggregateNewShare_eq_some {new : SharingParams} {canonical : List ResharingContribution}
    (hnonempty : canonical ≠ [])
    (hcarries : ∀ contribution ∈ canonical, ∃ oldShare, Carries new contribution oldShare) {newIndex : Nat}
    (hpositive : 1 ≤ newIndex) (hle : newIndex ≤ new.n) :
    aggregateNewShare newIndex canonical = some (interpolatedShare canonical newIndex) := by
  have hrows : ∀ contribution ∈ canonical, contribution.subShares.length = new.n := by
    intro contribution hmem
    obtain ⟨oldShare, hcarry⟩ := hcarries contribution hmem
    exact hcarry.rows
  have hwidth : ∀ contribution ∈ canonical,
      (contribution.subShares.getD (newIndex - 1) []).length = seedElements := by
    intro contribution hmem
    obtain ⟨oldShare, hcarry⟩ := hcarries contribution hmem
    have hlt : newIndex - 1 < contribution.subShares.length := by
      rw [hcarry.rows]
      omega
    rw [getD_eq_getElem?_getD, List.getElem?_eq_getElem hlt]
    exact hcarry.width _ (getElem_mem hlt)
  cases canonical with
  | nil => exact absurd rfl hnonempty
  | cons first rest =>
    have hfirst := hrows first (mem_cons_self ..)
    have hshape : ¬ ((first :: rest).any fun c => decide (c.subShares.length ≠ first.subShares.length) ||
        decide ((c.subShares.getD (newIndex - 1) []).length ≠ seedElements)) = true := by
      rw [any_eq_true]
      rintro ⟨c, hmem, hbad⟩
      rw [hrows c hmem, hwidth c hmem, hfirst] at hbad
      simp at hbad
    rw [aggregateNewShare, if_neg (by omega), if_neg (by omega), if_neg hshape]
    dsimp only
    congr 2
    refine map_congr_left fun elemIdx _ => ?_
    rw [foldl_add_eq, zero_add, reconstruct_eq_weighted]
    simp only [sentShares, map_map, Function.comp_def, List.zip, map_zipWith, zipWith_map_right]

section

variable {old new : SharingParams} {secret : Nat → GoldilocksField} {shares : List KeyShare}

/-- As many contributions as the old threshold says make a sharing of the old secret among the new members. -/
theorem Sharing.reshare (h : Sharing old secret shares) {canonical : List ResharingContribution}
    (hlength : canonical.length = old.t) (hdistinct : (canonical.map ResharingContribution.fromOldIndex).Nodup)
    (hcarries : ∀ contribution ∈ canonical, ∃ oldShare ∈ shares, Carries new contribution oldShare) :
    Sharing new secret ((List.range' 1 new.n).map (interpolatedShare canonical)) where
  indices := by
    rw [map_map]
    exact map_id _
  width := by
    intro keyShare hmem
    obtain ⟨newIndex, -, rfl⟩ := List.mem_map.mp hmem
    simp [interpolatedShare]
  onPolynomial := by
    intro elemIdx helem
    obtain ⟨p, hdegree, hsecret, hvalues⟩ := h.onPolynomial elemIdx helem
    have hsent : ∀ contribution, ∃ g : GoldilocksField[X], contribution ∈ canonical → g.degree < new.t ∧
        g.eval 0 = p.eval (gl (BitVec.ofNat 64 contribution.fromOldIndex)) ∧
        ∀ v < new.n, contribution.subShare v elemIdx = g.eval (memberPoint v) := by
      intro contribution
      by_cases hmem : contribution ∈ canonical
      · obtain ⟨oldShare, hshare, hcarry⟩ := hcarries contribution hmem
        obtain ⟨g, hbound, hzero, hvalue⟩ := hcarry.onPolynomial elemIdx helem
        refine ⟨g, fun _ => ⟨hbound, ?_, hvalue⟩⟩
        rw [hvalues oldShare hshare] at hzero
        rw [hcarry.index]
        exact (Option.some.inj hzero).symm
      · exact ⟨0, fun h => absurd h hmem⟩
    choose g hg using hsent
    have hentries : ∀ entry ∈ canonical.map fun c => (gl (BitVec.ofNat 64 c.fromOldIndex), g c),
        entry.2.degree < new.t := by
      intro entry hentry
      obtain ⟨c, hc, rfl⟩ := List.mem_map.mp hentry
      exact (hg c hc).1
    obtain ⟨combined, hbound, hcombined⟩ := exists_combination new.t _ hentries
    simp only [map_map, Function.comp_def] at hcombined
    refine ⟨combined, hbound, ?_, ?_⟩
    · -- at zero the polynomials have the old shares, which interpolate to the old secret
      have hpoints : ((canonical.map fun c => (⟨gl (BitVec.ofNat 64 c.fromOldIndex), (g c).eval 0⟩ :
          FieldShare GoldilocksField)).map FieldShare.x).Nodup := by
        rw [map_map]
        refine (List.Nodup.of_map _ hdistinct).map_on fun a ha b hb hequal => ?_
        have hindex : ∀ c ∈ canonical, c.fromOldIndex < goldilocksPrime := by
          intro c hc
          obtain ⟨oldShare, hshare, hcarry⟩ := hcarries c hc
          rw [hcarry.index]
          exact (h.index_mem hshare).2.trans_lt old.fits
        exact inj_on_of_nodup_map hdistinct ha hb (gl_ofNat_inj (hindex a ha) (hindex b hb) hequal)
      rw [hcombined, reconstruct_eq_eval hpoints (by rwa [length_map, hlength]), hsecret]
      intro share hshare
      obtain ⟨c, hc, rfl⟩ := List.mem_map.mp hshare
      exact (hg c hc).2.1
    · intro keyShare hmem
      obtain ⟨newIndex, hnew, rfl⟩ := List.mem_map.mp hmem
      have hrange := mem_range'_1.mp hnew
      have hpoint : memberPoint (newIndex - 1) = gl (BitVec.ofNat 64 newIndex) := by
        rw [memberPoint, Nat.sub_add_cancel hrange.1]
      have hsame : sentShares canonical (newIndex - 1) elemIdx = canonical.map fun c =>
          ⟨gl (BitVec.ofNat 64 c.fromOldIndex), (g c).eval (memberPoint (newIndex - 1))⟩ := by
        refine map_congr_left fun c hc => ?_
        rw [(hg c hc).2.2 (newIndex - 1) (by omega)]
      simp only [interpolatedShare, List.getElem?_map, List.getElem?_range helem, Option.map_some]
      rw [hsame, ← hcombined, hpoint]

end

/-! ### Resharing a secret -/

/-- A new member has aggregated the contributions, which it got in an order of its own. -/
def NewShare (oldThreshold : Nat) (contributions : List ResharingContribution) (newIndex : Nat)
    (keyShare : KeyShare) : Prop :=
  ∃ pool, pool.Perm contributions ∧
    (canonicalResharingSubset pool oldThreshold).bind (aggregateNewShare newIndex) = some keyShare

/-- All new members pick the same contributions, get a share from them, and the new shares give the secret. -/
structure ResharingPreserves (old new : SharingParams) (secret : Nat → GoldilocksField)
    (contributions : List ResharingContribution) : Prop where
  canonical : ∃ canonical, ∀ pool, pool.Perm contributions → canonicalResharingSubset pool old.t = some canonical
  aggregates : ∀ newIndex, 1 ≤ newIndex → newIndex ≤ new.n → ∀ pool, pool.Perm contributions →
    ∃ keyShare, (canonicalResharingSubset pool old.t).bind (aggregateNewShare newIndex) = some keyShare
  reconstructs : ∀ newShares, List.Forall₂ (NewShare old.t contributions) (List.range' 1 new.n) newShares →
    Reconstructs new secret newShares

/-- Contributions of a threshold of honest old members give every new member a share, and any new threshold of these
reconstructs the old secret. -/
theorem resharing_preserves_secret (P : Prims) (old new : SharingParams) (secret : Nat → GoldilocksField)
    (shares : List KeyShare) (hsharing : Sharing old secret shares) (members : List KeyShare)
    (hmembers : members ⊆ shares) (hdistinct : members.Nodup) (henough : old.t ≤ members.length) (epoch : U64)
    (contributions : List ResharingContribution) (hhonest : List.Forall₂ (fun oldShare contribution => ∃ entropy,
      generateResharingContribution P oldShare new.n new.t epoch entropy = .ok contribution) members contributions) :
    ResharingPreserves old new secret contributions := by
  have hcarries := hhonest.imp fun oldShare contribution h => carries_of_generate h.choose_spec
  have hindices : contributions.map ResharingContribution.fromOldIndex = members.map KeyShare.index :=
    eq_map_of_forall₂ (List.forall₂_map_right_iff.mpr (hcarries.imp fun _ _ h => h.index)) fun _ _ _ h => h
  have hnodup : (contributions.map ResharingContribution.fromOldIndex).Nodup := by
    rw [hindices]
    exact hdistinct.map_on fun a ha b hb h => hsharing.eq_of_index (hmembers ha) (hmembers hb) h
  have hlength : contributions.length = members.length := hhonest.length_eq.symm
  -- whatever the order, the same contributions are taken
  let sorted := contributions.insertionSort fun a b => a.fromOldIndex ≤ b.fromOldIndex
  have hsorted : sorted.Perm contributions := perm_insertionSort _ _
  have hcanonical : ∀ pool, pool.Perm contributions →
      canonicalResharingSubset pool old.t = some (sorted.take old.t) := by
    intro pool hperm
    rw [canonicalResharingSubset_eq_some (by rw [hperm.length_eq, hlength]; exact henough),
      insertionSort_perm hperm hnodup]
  have htaken : ∀ contribution ∈ sorted.take old.t, ∃ oldShare ∈ shares, Carries new contribution oldShare := by
    intro contribution hmem
    obtain ⟨oldShare, hmember, hcarry⟩ :=
      exists_mem_of_forall₂ hcarries (hsorted.mem_iff.mp (mem_of_mem_take hmem))
    exact ⟨oldShare, hmembers hmember, hcarry⟩
  have hcount : (sorted.take old.t).length = old.t := by
    rw [length_take, hsorted.length_eq, hlength, Nat.min_eq_left henough]
  have hdifferent : ((sorted.take old.t).map ResharingContribution.fromOldIndex).Nodup :=
    ((hsorted.map _).nodup_iff.mpr hnodup).sublist ((take_sublist _ _).map _)
  have hnonempty : sorted.take old.t ≠ [] := by
    intro hnil
    have hpositive := old.one_le
    rw [hnil, length_nil] at hcount
    omega
  have haggregate : ∀ newIndex, 1 ≤ newIndex → newIndex ≤ new.n → ∀ pool, pool.Perm contributions →
      (canonicalResharingSubset pool old.t).bind (aggregateNewShare newIndex) =
        some (interpolatedShare (sorted.take old.t) newIndex) := by
    intro newIndex hpositive hle pool hperm
    have hsent : ∀ c ∈ sorted.take old.t, ∃ oldShare, Carries new c oldShare := by
      intro c hc
      obtain ⟨oldShare, -, hcarry⟩ := htaken c hc
      exact ⟨oldShare, hcarry⟩
    rw [hcanonical pool hperm]
    exact aggregateNewShare_eq_some hnonempty hsent hpositive hle
  refine ⟨⟨_, hcanonical⟩, fun newIndex hpositive hle pool hperm =>
    ⟨_, haggregate newIndex hpositive hle pool hperm⟩, ?_⟩
  intro newShares hnew
  have heq : newShares = (List.range' 1 new.n).map (interpolatedShare (sorted.take old.t)) := by
    apply eq_map_of_forall₂ hnew
    rintro newIndex hmem keyShare ⟨pool, hperm, hshare⟩
    have hrange := mem_range'_1.mp hmem
    rw [haggregate newIndex hrange.1 (by omega) pool hperm] at hshare
    exact (Option.some.inj hshare).symm
  rw [heq]
  exact (hsharing.reshare hcount hdifferent htaken).reconstructs

/-- A committee of four, of whom three are enough. -/
def nextParams : SharingParams := ⟨4, 3, by decide, by decide, by decide⟩

/-- What the holder of an old share sends to the new committee. -/
def nextContribution (oldShare : KeyShare) : ResharingContribution :=
  match generateResharingContribution stamped oldShare nextParams.n nextParams.t 2 [] with
  | .ok contribution => contribution
  | .error _ => ⟨0, []⟩

/-- Two of three old members, the third one's contribution first. -/
theorem resharing_preserves_secret_line :
    ResharingPreserves lineParams nextParams (fun _ => 5)
      ([2, 0].map fun i => nextContribution (lineShares.getD i ⟨0, []⟩)) := by
  apply resharing_preserves_secret stamped lineParams nextParams _ lineShares lineShares_sharing
    ([2, 0].map fun i => lineShares.getD i ⟨0, []⟩) (by decide +kernel) (by decide +kernel) (by decide +kernel) 2
  refine .cons ⟨[], by decide +kernel⟩ (.cons ⟨[], by decide +kernel⟩ .nil)

end Pyde
