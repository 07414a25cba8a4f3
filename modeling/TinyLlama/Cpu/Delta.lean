import TinyLlama.Lib.Sweep
import Mathlib.Data.Matrix.Mul

-- backend/cpu/cpu_op.c: gated_delta_step. The arithmetic is exact; offsets are 64-bit in the code and naturals here.
namespace TinyLlama.Cpu
open Sweep

structure DeltaInput (K : Type) where
  q : Nat → K
  k : Nat → K
  v : Nat → K
  g : Nat → K
  beta : Nat → K

structure DeltaMem (K : Type) where
  state : Nat → K
  kvMem : Nat → K
  output : Nat → K

section Step
variable {K : Type} [Field K]

def keyHead (nKHeads grp : Nat) : Nat := if nKHeads ≠ 0 then grp % nKHeads else 0

def gatedDeltaHead (nKHeads headDim : Nat) (x : DeltaInput K) (grp : Nat) (m : DeltaMem K) : DeltaMem K :=
  let d2 := headDim*headDim
  let kh := keyHead nKHeads grp
  let qg i := x.q (kh*headDim+i)
  let kg i := x.k (kh*headDim+i)
  let vg j := x.v (grp*headDim+j)
  let sg := grp*d2
  let mem := grp*headDim
  let state := d2.fold (fun i _ s => Function.update s (sg+i) (s (sg+i)*x.g grp)) m.state
  let kvMem := splice m.kvMem mem headDim fun _ => 0
  let kvMem := headDim.fold (fun i _ km => headDim.fold (fun j _ km =>
    Function.update km (mem+j) (km (mem+j)+state (sg+i*headDim+j)*kg i)) km) kvMem
  let delta j := (vg j-kvMem (mem+j))*x.beta grp
  -- The update of a cell and its share of the readout, in one pass.
  let s := headDim.fold (fun i _ s => headDim.fold (fun j _ s =>
    let row := Function.update s.1 (sg+i*headDim+j) (s.1 (sg+i*headDim+j)+kg i*delta j)
    (row,Function.update s.2 j (s.2 j+row (sg+i*headDim+j)*qg i))) s) (state,fun _ => (0 : K))
  ⟨s.1,kvMem,splice m.output mem headDim s.2⟩

def gatedDeltaStep (nVHeads nKHeads headDim : Nat) (x : DeltaInput K) (m : DeltaMem K) : DeltaMem K :=
  nVHeads.fold (fun grp _ m => gatedDeltaHead nKHeads headDim x grp m) m

end Step

section Loops
variable {K : Type} [Field K]

theorem readback_eq (headDim mem : Nat) (row : Nat → Nat → K) (k : Nat → K) (km : Nat → K) :
    headDim.fold (fun i _ km => headDim.fold (fun j _ km =>
      Function.update km (mem+j) (km (mem+j)+row i j*k i)) km) (splice km mem headDim fun _ => 0) =
      splice km mem headDim fun j => ∑ i ∈ Finset.range headDim,row i j*k i := by
  funext p
  have inner : ∀ i < headDim,∀ km : Nat → K,headDim.fold (fun j _ km => Function.update km (mem+j) (km (mem+j)+row i j*k i)) km p =
      km p+if mem ≤ p ∧ p < mem+headDim then row i (p-mem)*k i else 0 := by
    intro i _ km
    rw [fold_modify_from headDim mem (fun j x => x+row i j*k i),splice]
    split
    · next inside => rw [Nat.add_sub_cancel' inside.1]
    · rw [add_zero]
  rw [fold_total (m:=fun km : Nat → K => km p) inner]
  unfold splice
  by_cases inside : mem ≤ p ∧ p < mem+headDim
  · simp only [if_pos inside,zero_add]
  · simp only [if_neg inside,Finset.sum_const_zero,add_zero]

theorem updateRow_eq (row : Nat) (a : Nat → K) (q : K) (s out : Nat → K) (n : Nat) :
    n.fold (fun j _ s =>
      let row' := Function.update s.1 (row+j) (s.1 (row+j)+a j)
      (row',Function.update s.2 j (s.2 j+row' (row+j)*q))) (s,out) =
      (splice s row n fun j => s (row+j)+a j,fun j => if j < n then out j+(s (row+j)+a j)*q else out j) := by
  induction n with
  | zero => simp [splice_none]
  | succ n ih =>
    rw [Nat.fold_succ,ih]
    have fresh : splice s row n (fun j => s (row+j)+a j) (row+n) = s (row+n) := by
      rw [splice,if_neg (by omega)]
    dsimp only
    rw [fresh,Function.update_self,if_neg (lt_irrefl n)]
    refine Prod.ext ?_ ?_
    · funext p
      dsimp only
      rw [Function.update_apply]
      unfold splice
      by_cases last : p = row+n
      · rw [if_pos last,if_pos (by omega),last,Nat.add_sub_cancel_left]
      · rw [if_neg last]
        refine if_congr ?_ rfl rfl
        omega
    · funext j
      dsimp only
      rw [Function.update_apply]
      by_cases last : j = n
      · rw [if_pos last,if_pos (by omega),last]
      · rw [if_neg last]
        refine if_congr ?_ rfl rfl
        omega

theorem updateRows_eq (headDim sg : Nat) (k q delta s : Nat → K) (n : Nat) :
    n.fold (fun i _ s => headDim.fold (fun j _ s =>
      let row := Function.update s.1 (sg+i*headDim+j) (s.1 (sg+i*headDim+j)+k i*delta j)
      (row,Function.update s.2 j (s.2 j+row (sg+i*headDim+j)*q i))) s) (s,fun _ => 0) =
      (splice s sg (n*headDim) fun o => s (sg+o)+k (o/headDim)*delta (o%headDim),
        fun j => if j < headDim then ∑ i ∈ Finset.range n,(s (sg+i*headDim+j)+k i*delta j)*q i else 0) := by
  induction n with
  | zero => simp [splice_none]
  | succ n ih =>
    rw [Nat.fold_succ,ih]
    have untouched : ∀ j,splice s sg (n*headDim) (fun o => s (sg+o)+k (o/headDim)*delta (o%headDim)) (sg+n*headDim+j) =
        s (sg+n*headDim+j) := fun j => by rw [splice,if_neg (by omega)]
    refine (updateRow_eq (sg+n*headDim) (fun j => k n*delta j) (q n) _ _ headDim).trans (Prod.ext ?_ ?_)
    · dsimp only
      rw [Nat.succ_mul,← splice_append]
      refine splice_congr fun j small => ?_
      have wide : 0 < headDim := by omega
      rw [untouched,Nat.add_assoc,Nat.add_comm (n*headDim) j,Nat.add_mul_div_right _ _ wide,Nat.add_mul_mod_self_right,
        Nat.div_eq_of_lt small,Nat.mod_eq_of_lt small,Nat.zero_add]
    · funext j
      dsimp only
      by_cases small : j < headDim
      · rw [if_pos small,if_pos small,if_pos small,untouched,Finset.sum_range_succ]
      · rw [if_neg small,if_neg small,if_neg small]

end Loops

section Heads
variable {K : Type} [Field K] (nKHeads headDim : Nat) (x : DeltaInput K) (grp : Nat) (m : DeltaMem K)

def decayed (i j : Nat) : K := m.state (grp*(headDim*headDim)+i*headDim+j)*x.g grp

def readback (j : Nat) : K := ∑ i ∈ Finset.range headDim,decayed headDim x grp m i j*x.k (keyHead nKHeads grp*headDim+i)

def updated (i j : Nat) : K := decayed headDim x grp m i j+
  x.k (keyHead nKHeads grp*headDim+i)*((x.v (grp*headDim+j)-readback nKHeads headDim x grp m j)*x.beta grp)

def readout (j : Nat) : K := ∑ i ∈ Finset.range headDim,updated nKHeads headDim x grp m i j*x.q (keyHead nKHeads grp*headDim+i)

theorem gatedDeltaHead_eq : gatedDeltaHead nKHeads headDim x grp m =
    ⟨splice m.state (grp*(headDim*headDim)) (headDim*headDim) fun o => updated nKHeads headDim x grp m (o/headDim) (o%headDim),
      splice m.kvMem (grp*headDim) headDim (readback nKHeads headDim x grp m),
      splice m.output (grp*headDim) headDim (readout nKHeads headDim x grp m)⟩ := by
  set sg := grp*(headDim*headDim) with start
  set kept := splice m.state sg (headDim*headDim) fun o => m.state (sg+o)*x.g grp with scaled
  have cell : ∀ i < headDim,∀ j < headDim,kept (sg+i*headDim+j) = decayed headDim x grp m i j := fun i row j column => by
    have rows := Nat.mul_le_mul_right headDim (show i+1 ≤ headDim from row)
    rw [Nat.succ_mul] at rows
    rw [scaled,splice,if_pos (by omega)]
    simp only [decayed,Nat.add_assoc,Nat.add_sub_cancel_left]
    rfl
  have memory : (splice m.kvMem (grp*headDim) headDim fun j => ∑ i ∈ Finset.range headDim,
      kept (sg+i*headDim+j)*x.k (keyHead nKHeads grp*headDim+i)) =
      splice m.kvMem (grp*headDim) headDim (readback nKHeads headDim x grp m) := by
    refine splice_congr fun j column => Finset.sum_congr rfl fun i row => ?_
    rw [cell i (Finset.mem_range.mp row) j column]
  have read : ∀ j < headDim,splice m.kvMem (grp*headDim) headDim (readback nKHeads headDim x grp m) (grp*headDim+j) =
      readback nKHeads headDim x grp m j := fun j column => by
    rw [splice,if_pos (by omega),Nat.add_sub_cancel_left]
  unfold gatedDeltaHead
  simp only
  rw [fold_modify_from (headDim*headDim) (grp*(headDim*headDim)) (fun _ c => c*x.g grp),← start,← scaled,
    readback_eq headDim (grp*headDim) (fun i j => kept (sg+i*headDim+j)) (fun i => x.k (keyHead nKHeads grp*headDim+i)),memory,
    updateRows_eq headDim sg (fun i => x.k (keyHead nKHeads grp*headDim+i)) (fun i => x.q (keyHead nKHeads grp*headDim+i))
      (fun j => (x.v (grp*headDim+j)-splice m.kvMem (grp*headDim) headDim (readback nKHeads headDim x grp m) (grp*headDim+j))*x.beta grp)]
  congr 1
  · dsimp only
    rw [scaled,splice_splice,← scaled]
    refine splice_congr fun o within => ?_
    have wide : 0 < headDim := Nat.pos_of_ne_zero fun none' => by subst none'; omega
    have column := Nat.mod_lt o wide
    have row : o/headDim < headDim := Nat.div_lt_of_lt_mul within
    have value := cell _ row _ column
    rw [Nat.add_assoc,Nat.div_add_mod' o headDim] at value
    rw [value,read _ column]
    rfl
  · refine splice_congr fun j column => ?_
    dsimp only
    rw [if_pos column]
    refine Finset.sum_congr rfl fun i row => ?_
    rw [cell i (Finset.mem_range.mp row) j column,read j column]
    rfl

end Heads

section Matrices
open Matrix
variable {K : Type} [Field K] (nKHeads headDim : Nat)

def headMatrix (state : Nat → K) (h : Nat) : Matrix (Fin headDim) (Fin headDim) K :=
  fun i j => state (h*(headDim*headDim)+i*headDim+j)

def headRow (f : Nat → K) (h : Nat) : Fin headDim → K := fun j => f (h*headDim+j)

-- The recurrence: S' = (I - beta k k^T)(g S) + beta k v^T.
def deltaRule (x : DeltaInput K) (h : Nat) (S : Matrix (Fin headDim) (Fin headDim) K) : Matrix (Fin headDim) (Fin headDim) K :=
  (1-x.beta h • vecMulVec (headRow headDim x.k (h % nKHeads)) (headRow headDim x.k (h % nKHeads)))*(x.g h • S)+
    x.beta h • vecMulVec (headRow headDim x.k (h % nKHeads)) (headRow headDim x.v h)

def deltaMatrix (inputs : List (DeltaInput K)) (h : Nat) : Matrix (Fin headDim) (Fin headDim) K :=
  inputs.foldl (fun S x => deltaRule nKHeads headDim x h S) 0

variable {nKHeads headDim}

theorem block_row {h grp : Nat} (i j : Fin headDim) :
    grp*(headDim*headDim) ≤ h*(headDim*headDim)+i*headDim+j ∧
      h*(headDim*headDim)+i*headDim+j < grp*(headDim*headDim)+headDim*headDim ↔ grp = h := by
  have rows := Nat.mul_le_mul_right headDim (show (i : Nat)+1 ≤ headDim from i.isLt)
  have column := j.isLt
  rw [Nat.succ_mul] at rows
  have small : (i : Nat)*headDim+j < headDim*headDim := by omega
  rw [Nat.add_assoc]
  exact row_inside small

theorem updated_rule (head : keyHead nKHeads grp = grp % nKHeads) (x : DeltaInput K) (m : DeltaMem K) (i j : Fin headDim) :
    updated nKHeads headDim x grp m i j = deltaRule nKHeads headDim x grp (headMatrix headDim m.state grp) i j := by
  have old : ∀ l : Fin headDim,decayed headDim x grp m l j = headMatrix headDim m.state grp l j*x.g grp := fun l => rfl
  have sum : readback nKHeads headDim x grp m j =
      ∑ l : Fin headDim,headMatrix headDim m.state grp l j*x.g grp*headRow headDim x.k (grp % nKHeads) l := by
    rw [readback,Finset.sum_range,head]
    rfl
  have product : ((vecMulVec (headRow headDim x.k (grp % nKHeads)) (headRow headDim x.k (grp % nKHeads)))*
      headMatrix headDim m.state grp) i j = headRow headDim x.k (grp % nKHeads) i*
        ∑ l : Fin headDim,headMatrix headDim m.state grp l j*headRow headDim x.k (grp % nKHeads) l := by
    rw [Matrix.mul_apply,Finset.mul_sum]
    refine Finset.sum_congr rfl fun l _ => ?_
    rw [vecMulVec_apply]
    ring
  have scale : ∑ l : Fin headDim,headMatrix headDim m.state grp l j*x.g grp*headRow headDim x.k (grp % nKHeads) l =
      x.g grp*∑ l : Fin headDim,headMatrix headDim m.state grp l j*headRow headDim x.k (grp % nKHeads) l := by
    rw [Finset.mul_sum]
    exact Finset.sum_congr rfl fun l _ => by ring
  rw [updated,old,sum,scale,head,deltaRule,Matrix.add_apply,Matrix.sub_mul,Matrix.sub_apply,Matrix.one_mul,Matrix.smul_mul,
    Matrix.mul_smul,Matrix.smul_apply,Matrix.smul_apply,Matrix.smul_apply,Matrix.smul_apply,product,vecMulVec_apply]
  simp only [smul_eq_mul,headRow]
  ring

theorem readout_rule (head : keyHead nKHeads grp = grp % nKHeads) (x : DeltaInput K) (m : DeltaMem K) (j : Fin headDim) :
    readout nKHeads headDim x grp m j =
      ((deltaRule nKHeads headDim x grp (headMatrix headDim m.state grp))ᵀ *ᵥ headRow headDim x.q (grp % nKHeads)) j := by
  rw [readout,Finset.sum_range,Matrix.mulVec,dotProduct]
  refine Finset.sum_congr rfl fun i _ => ?_
  rw [Matrix.transpose_apply,← updated_rule head x m i j,head]
  rfl

theorem readback_rule (head : keyHead nKHeads grp = grp % nKHeads) (x : DeltaInput K) (m : DeltaMem K) (j : Fin headDim) :
    readback nKHeads headDim x grp m j =
      ((x.g grp • headMatrix headDim m.state grp)ᵀ *ᵥ headRow headDim x.k (grp % nKHeads)) j := by
  rw [readback,Finset.sum_range,Matrix.mulVec,dotProduct]
  refine Finset.sum_congr rfl fun i _ => ?_
  rw [Matrix.transpose_apply,Matrix.smul_apply,smul_eq_mul,head,mul_comm (x.g grp)]
  rfl

variable (headDim) in
theorem gatedDeltaHead_own (head : keyHead nKHeads h = h % nKHeads) (x : DeltaInput K) (m : DeltaMem K) :
    headMatrix headDim (gatedDeltaHead nKHeads headDim x h m).state h = deltaRule nKHeads headDim x h (headMatrix headDim m.state h) ∧
    headRow headDim (gatedDeltaHead nKHeads headDim x h m).kvMem h =
      (x.g h • headMatrix headDim m.state h)ᵀ *ᵥ headRow headDim x.k (h % nKHeads) ∧
    headRow headDim (gatedDeltaHead nKHeads headDim x h m).output h =
      (deltaRule nKHeads headDim x h (headMatrix headDim m.state h))ᵀ *ᵥ headRow headDim x.q (h % nKHeads) := by
  rw [gatedDeltaHead_eq]
  refine ⟨?_,?_,?_⟩
  · ext i j
    have column := j.isLt
    have wide : 0 < headDim := by omega
    have place : h*(headDim*headDim)+i*headDim+j-h*(headDim*headDim) = j+i*headDim := by omega
    dsimp only [headMatrix]
    rw [splice,if_pos ((block_row i j).mpr rfl),place,Nat.add_mul_div_right _ _ wide,Nat.add_mul_mod_self_right,
      Nat.div_eq_of_lt column,Nat.mod_eq_of_lt column,Nat.zero_add,updated_rule head]
  · ext j
    have column := j.isLt
    dsimp only [headRow]
    rw [splice,if_pos (by omega),Nat.add_sub_cancel_left,readback_rule head]
  · ext j
    have column := j.isLt
    dsimp only [headRow]
    rw [splice,if_pos (by omega),Nat.add_sub_cancel_left,readout_rule head]

variable (nKHeads headDim) in
theorem gatedDeltaHead_other (x : DeltaInput K) (m : DeltaMem K) (other : grp ≠ h) :
    headMatrix headDim (gatedDeltaHead nKHeads headDim x grp m).state h = headMatrix headDim m.state h ∧
    headRow headDim (gatedDeltaHead nKHeads headDim x grp m).kvMem h = headRow headDim m.kvMem h ∧
    headRow headDim (gatedDeltaHead nKHeads headDim x grp m).output h = headRow headDim m.output h := by
  rw [gatedDeltaHead_eq]
  refine ⟨?_,?_,?_⟩
  · ext i j
    dsimp only [headMatrix]
    rw [splice,if_neg fun inside => other ((block_row i j).mp inside)]
  · ext j
    dsimp only [headRow]
    rw [splice,if_neg fun inside => other ((row_inside j.isLt).mp inside)]
  · ext j
    dsimp only [headRow]
    rw [splice,if_neg fun inside => other ((row_inside j.isLt).mp inside)]

end Matrices

section Runs
open Matrix
variable {K : Type} [Field K] {nVHeads nKHeads : Nat} (headDim : Nat)

theorem keyHead_mod (multiple : nKHeads ∣ nVHeads) (below : h < nVHeads) : keyHead nKHeads h = h % nKHeads := by
  unfold keyHead
  split
  · rfl
  · next none' =>
    obtain rfl : nKHeads = 0 := not_not.mp none'
    rw [Nat.eq_zero_of_zero_dvd multiple] at below
    exact absurd below (Nat.not_lt_zero h)

theorem gatedDeltaStep_heads (multiple : nKHeads ∣ nVHeads) (x : DeltaInput K) (m : DeltaMem K) : ∀ n ≤ nVHeads,
    let m' := n.fold (fun grp _ m => gatedDeltaHead nKHeads headDim x grp m) m
    (∀ h < n,headMatrix headDim m'.state h = deltaRule nKHeads headDim x h (headMatrix headDim m.state h) ∧
      headRow headDim m'.kvMem h = (x.g h • headMatrix headDim m.state h)ᵀ *ᵥ headRow headDim x.k (h % nKHeads) ∧
      headRow headDim m'.output h =
        (deltaRule nKHeads headDim x h (headMatrix headDim m.state h))ᵀ *ᵥ headRow headDim x.q (h % nKHeads)) ∧
    ∀ h,n ≤ h → headMatrix headDim m'.state h = headMatrix headDim m.state h := by
  intro n
  induction n with
  | zero => exact fun _ => ⟨fun h none' => absurd none' (Nat.not_lt_zero h),fun h _ => rfl⟩
  | succ n ih =>
    intro up
    obtain ⟨done,ahead⟩ := ih (by omega)
    simp only
    rw [Nat.fold_succ]
    generalize n.fold _ _ = m' at done ahead ⊢
    refine ⟨fun h low => ?_,fun h high => ?_⟩
    · by_cases last : h = n
      · subst last
        obtain ⟨state,scratch,output⟩ := gatedDeltaHead_own headDim (keyHead_mod multiple up) x m'
        rw [ahead h le_rfl] at state scratch output
        exact ⟨state,scratch,output⟩
      · obtain ⟨state,scratch,output⟩ := gatedDeltaHead_other nKHeads headDim x m' (Ne.symm last)
        rw [state,scratch,output]
        exact done h (by omega)
    · rw [(gatedDeltaHead_other nKHeads headDim x m' (by omega)).1]
      exact ahead h (by omega)

def deltaRun (nVHeads nKHeads headDim : Nat) (inputs : List (DeltaInput K)) (m : DeltaMem K) : DeltaMem K :=
  inputs.foldl (fun m x => gatedDeltaStep nVHeads nKHeads headDim x m) m

theorem deltaRun_state (multiple : nKHeads ∣ nVHeads) (kvMem output : Nat → K) (inputs : List (DeltaInput K)) :
    ∀ h < nVHeads,headMatrix headDim (deltaRun nVHeads nKHeads headDim inputs ⟨fun _ => 0,kvMem,output⟩).state h =
      deltaMatrix nKHeads headDim inputs h := by
  induction inputs using List.reverseRecOn with
  | nil => exact fun h _ => rfl
  | append_singleton before x ih =>
    intro h below
    rw [deltaRun,deltaMatrix,List.foldl_append,List.foldl_append]
    exact ((gatedDeltaStep_heads headDim multiple x _ nVHeads le_rfl).1 h below).1.trans (congrArg _ (ih h below))

-- From a zero state, after any inputs: state and output of every head, and that a head's
-- round changes no cell of another.
theorem gatedDelta_recurrence (nVHeads nKHeads headDim : Nat) (multiple : nKHeads ∣ nVHeads) (kvMem output : Nat → K)
    (before : List (DeltaInput K)) (x : DeltaInput K) :
    let m := deltaRun nVHeads nKHeads headDim before ⟨fun _ => 0,kvMem,output⟩
    let m' := gatedDeltaStep nVHeads nKHeads headDim x m
    (∀ h < nVHeads,
      headMatrix headDim m.state h = deltaMatrix nKHeads headDim before h ∧
      headMatrix headDim m'.state h =
        (1-x.beta h • vecMulVec (headRow headDim x.k (h % nKHeads)) (headRow headDim x.k (h % nKHeads)))*
            (x.g h • headMatrix headDim m.state h)+
          x.beta h • vecMulVec (headRow headDim x.k (h % nKHeads)) (headRow headDim x.v h) ∧
      headRow headDim m'.output h = (headMatrix headDim m'.state h)ᵀ *ᵥ headRow headDim x.q (h % nKHeads)) ∧
    ∀ (any : DeltaMem K) (grp p : Nat),
      (¬(grp*(headDim*headDim) ≤ p ∧ p < grp*(headDim*headDim)+headDim*headDim) →
        (gatedDeltaHead nKHeads headDim x grp any).state p = any.state p) ∧
      (¬(grp*headDim ≤ p ∧ p < grp*headDim+headDim) →
        (gatedDeltaHead nKHeads headDim x grp any).kvMem p = any.kvMem p ∧
        (gatedDeltaHead nKHeads headDim x grp any).output p = any.output p) := by
  refine ⟨fun h below => ?_,fun any grp p => ?_⟩
  · obtain ⟨state,_,out⟩ := (gatedDeltaStep_heads headDim multiple x
      (deltaRun nVHeads nKHeads headDim before ⟨fun _ => 0,kvMem,output⟩) nVHeads le_rfl).1 h below
    exact ⟨deltaRun_state headDim multiple kvMem output before h below,state,out.trans (by rw [← state]; rfl)⟩
  · rw [gatedDeltaHead_eq]
    refine ⟨fun outside => if_neg outside,fun outside => ⟨if_neg outside,if_neg outside⟩⟩

end Runs

def smallInput : DeltaInput ℚ := ⟨fun i => i,fun i => i+1,fun i => 2*i,fun h => 1/(h+1),fun h => h⟩

theorem fourHeads_recurrence :
    headMatrix 3 (deltaRun 4 2 3 [smallInput] ⟨fun _ => 0,fun _ => 7,fun _ => 7⟩).state 3 = deltaMatrix 2 3 [smallInput] 3 ∧
      headRow 3 (gatedDeltaStep 4 2 3 smallInput (deltaRun 4 2 3 [smallInput] ⟨fun _ => 0,fun _ => 7,fun _ => 7⟩)).output 3 =
        (headMatrix 3 (gatedDeltaStep 4 2 3 smallInput (deltaRun 4 2 3 [smallInput] ⟨fun _ => 0,fun _ => 7,fun _ => 7⟩)).state 3).transpose.mulVec
          (headRow 3 smallInput.q 1) := by
  obtain ⟨state,_,out⟩ := (gatedDelta_recurrence 4 2 3 (by decide) (fun _ => 7) (fun _ => 7) [smallInput] smallInput).1 3 (by decide)
  exact ⟨state,out⟩

end TinyLlama.Cpu
