import TinyLlama.Lib.Recurrence
import TinyLlama.Cpu.Norms
import TinyLlama.Cpu.Conv

-- backend/cpu/cpu_op.c: op_mamba2_scan. The arithmetic is exact; widths, strides and channel indices are 32-bit.
namespace TinyLlama.Cpu
open Sweep Recurrence

structure ScanShape where
  nh : Nat
  hd : Nat
  ds : Nat
  ng : Nat
  dInner : Nat
deriving Repr,DecidableEq

namespace ScanShape

def convDim (s : ScanShape) : Nat := u32 (s.dInner+2*s.ng*s.ds)
def projW (s : ScanShape) : Nat := u32 (s.convDim+s.dInner+s.nh)
def headsPerGroup (s : ScanShape) : Nat := s.nh/s.ng

-- What the op accepts, but for the width of its output.
def Proper (s : ScanShape) : Prop := s.nh ≠ 0 ∧ s.hd ≠ 0 ∧ s.ds ≠ 0 ∧ s.ng ≠ 0 ∧ s.nh % s.ng = 0 ∧ u32 (s.nh*s.hd) = s.dInner

instance (s : ScanShape) : Decidable s.Proper := inferInstanceAs (Decidable (_ ∧ _))

end ScanShape

structure ScanWeights (K : Type) where
  avec : Nat → K
  dvec : Nat → K
  dtb : Nat → K
  nw : Option (Nat → K)

structure ScanCall (K : Type) where
  base : Nat
  r : Nat
  xbc : Nat → K
  proj : Nat → K
  dst : Nat → K

section Operator
variable {K : Type} [Field K] [LinearOrder K]

-- One channel: its cells advance, and are read as they do.
def scanChannel (ds : Nat) (dA xdt : K) (bg cg : Nat → K) (sp : Nat) (state : Nat → K) : (Nat → K) × K :=
  ds.fold (fun i _ (s : (Nat → K) × K) =>
    let sv := s.1 (sp+i)*dA+bg i*xdt
    (Function.update s.1 (sp+i) sv,s.2+sv*cg i)) (state,0)

def scanRow (lm : Libm K) (s : ScanShape) (w : ScanWeights K) (call : ScanCall K) (p : Nat) (st : (Nat → K) × (Nat → K)) :
    (Nat → K) × (Nat → K) :=
  let xr j := call.xbc ((call.base+p)*s.convDim+j)
  let pr j := call.proj ((call.base+p)*s.projW+j)
  let B j := xr (s.dInner+j)
  let C j := B (u32 (s.ng*s.ds)+j)
  let dt h := pr (s.dInner+s.convDim+h)
  let dp := p*s.dInner
  s.nh.fold (fun h _ st =>
    let dtv := softplus lm (dt h+w.dtb h)
    let dA := lm.exp (dtv*w.avec h)
    let g := h/s.headsPerGroup
    s.hd.fold (fun d _ st =>
      let ii := u32 (h*s.hd+d)
      let xv := xr ii
      let (state,sum) := scanChannel s.ds dA (xv*dtv) (fun i => B (g*s.ds+i)) (fun i => C (g*s.ds+i)) (ii*s.ds) st.2
      let y := sum+xv*w.dvec h
      let z := pr ii
      (Function.update st.1 (dp+ii) (y*(z/(1+lm.exp (-z)))),state)) st) st

def groupNorm (lm : Libm K) (s : ScanShape) (nw : Option (Nat → K)) (eps : K) (dp : Nat) (dst : Nat → K) : Nat → K :=
  match nw with
  | none => dst
  | some nw =>
    let gsize := s.dInner/s.ng
    s.ng.fold (fun g _ dst => rmsNormInplace lm dst (dp+g*gsize) (fun j => nw (g*gsize+j)) gsize eps) dst

def opMamba2Scan (lm : Libm K) (s : ScanShape) (od : Nat) (w : ScanWeights K) (eps : K) (call : ScanCall K) (state : Nat → K) :
    Option ((Nat → K) × (Nat → K)) :=
  if s.nh = 0 ∨ s.hd = 0 ∨ s.ds = 0 ∨ s.ng = 0 then none
  else if s.nh % s.ng ≠ 0 ∨ u32 (s.nh*s.hd) ≠ s.dInner ∨ od ≠ s.dInner then none
  else some (call.r.fold (fun p _ st =>
    let st := scanRow lm s w call p st
    (groupNorm lm s w.nw eps (p*s.dInner) st.1,st.2)) (call.dst,state))

end Operator

section Reference
variable {K : Type} [Field K]

-- A row of the packed projections: x | B | C and z | xBC | dt at their full widths.
structure ScanInput (K : Type) where
  x : Nat → K
  b : Nat → Nat → K
  c : Nat → Nat → K
  z : Nat → K
  dt : Nat → K

namespace ScanShape

def inner (s : ScanShape) : Nat := s.nh*s.hd
def convWidth (s : ScanShape) : Nat := s.inner+2*s.ng*s.ds
def projWidth (s : ScanShape) : Nat := s.convWidth+s.inner+s.nh

end ScanShape

def scanInput (s : ScanShape) (call : ScanCall K) (p : Nat) : ScanInput K where
  x ii := call.xbc ((call.base+p)*s.convWidth+ii)
  b g i := call.xbc ((call.base+p)*s.convWidth+s.inner+g*s.ds+i)
  c g i := call.xbc ((call.base+p)*s.convWidth+s.inner+s.ng*s.ds+g*s.ds+i)
  z ii := call.proj ((call.base+p)*s.projWidth+ii)
  dt h := call.proj ((call.base+p)*s.projWidth+s.inner+s.convWidth+h)

def scanInputs (s : ScanShape) (calls : List (ScanCall K)) : List (ScanInput K) :=
  calls.flatMap fun call => (List.range call.r).map (scanInput s call)

def noInput : ScanInput K := ⟨fun _ => 0,fun _ _ => 0,fun _ _ => 0,fun _ => 0,fun _ => 0⟩

variable [LinearOrder K]

def timeStep (lm : Libm K) (w : ScanWeights K) (row : ScanInput K) (h : Nat) : K := softplus lm (row.dt h+w.dtb h)

-- D x_t + sum over s of (product of the decays since) dt_s (B_s . C_t) x_s.
def scanValue (lm : Libm K) (s : ScanShape) (w : ScanWeights K) (rows : Nat → ScanInput K) (t h d : Nat) : K :=
  w.dvec h*(rows t).x (h*s.hd+d)+∑ k ∈ Finset.range (t+1),
    (∏ r ∈ Finset.Ico (k+1) (t+1),lm.exp (timeStep lm w (rows r) h*w.avec h))*timeStep lm w (rows k) h*
      (∑ i ∈ Finset.range s.ds,(rows k).b (h/s.headsPerGroup) i*(rows t).c (h/s.headsPerGroup) i)*(rows k).x (h*s.hd+d)

def normed (lm : Libm K) (s : ScanShape) (nw : Option (Nat → K)) (eps : K) (row : Nat → K) (ii : Nat) : K :=
  match nw with
  | none => row ii
  | some nw =>
    let gsize := s.inner/s.ng
    let g := ii/gsize
    row ii*(1/lm.sqrt ((∑ j ∈ Finset.range gsize,row (g*gsize+j)*row (g*gsize+j))/gsize+eps))*nw ii

def scanState (lm : Libm K) (s : ScanShape) (w : ScanWeights K) (eps : K) (calls : List (ScanCall K)) : Nat → K :=
  calls.foldl (fun state call => ((opMamba2Scan lm s s.dInner w eps call state).map Prod.snd).getD state) fun _ => 0

end Reference

section Rows
variable {K : Type} [Field K]

theorem scanChannel_eq (dA xdt : K) (bg cg : Nat → K) (sp : Nat) (state : Nat → K) (ds : Nat) :
    scanChannel ds dA xdt bg cg sp state =
      (splice state sp ds fun i => state (sp+i)*dA+bg i*xdt,∑ i ∈ Finset.range ds,(state (sp+i)*dA+bg i*xdt)*cg i) := by
  unfold scanChannel
  induction ds with
  | zero => simp [splice_none]
  | succ n ih =>
    rw [Nat.fold_succ,ih]
    have fresh : splice state sp n (fun i => state (sp+i)*dA+bg i*xdt) (sp+n) = state (sp+n) := by
      rw [splice,if_neg (by omega)]
    dsimp only
    rw [fresh,Finset.sum_range_succ]
    refine Prod.ext ?_ rfl
    funext k
    dsimp only
    rw [Function.update_apply]
    unfold splice
    by_cases last : k = sp+n
    · rw [if_pos last,if_pos (by omega),last,Nat.add_sub_cancel_left]
    · rw [if_neg last]
      refine if_congr ?_ rfl rfl
      omega

end Rows

section Widths
variable {s : ScanShape}

-- Every width and index of the shape is within 32 bits.
structure ScanShape.Exact (s : ScanShape) : Prop where
  inner : s.dInner = s.inner
  conv : s.convDim = s.convWidth
  proj : s.projW = s.projWidth
  groups : u32 (s.ng*s.ds) = s.ng*s.ds
  channel : ∀ ii < s.inner,u32 ii = ii

theorem exact_widths (proper : s.Proper) (fits : s.projWidth < 2^32) : s.Exact := by
  have same : s.dInner = s.inner := by
    rw [← proper.2.2.2.2.2]
    exact u32_of_lt (by simp only [ScanShape.projWidth,ScanShape.convWidth,ScanShape.inner] at fits ⊢; omega)
  have groups : 2*s.ng*s.ds = 2*(s.ng*s.ds) := by ring
  unfold ScanShape.projWidth ScanShape.convWidth at fits
  have conv : s.convDim = s.convWidth := by
    rw [ScanShape.convDim,same,ScanShape.convWidth]
    exact u32_of_lt (by omega)
  refine ⟨same,conv,?_,u32_of_lt (by omega),fun ii below => u32_of_lt (by omega)⟩
  rw [ScanShape.projW,conv,same,ScanShape.projWidth,ScanShape.convWidth]
  exact u32_of_lt (by omega)

theorem groups_inner (proper : s.Proper) : s.ng*(s.inner/s.ng) = s.inner :=
  Nat.mul_div_cancel' ((Nat.dvd_of_mod_eq_zero proper.2.2.2.2.1).mul_right s.hd)

end Widths

section Norms
variable {K : Type} [Field K] {lm : Libm K} {s : ScanShape}

theorem groupNorm_eq (proper : s.Proper) (exact' : s.Exact) (nw : Option (Nat → K)) (eps : K) (dp : Nat) (dst : Nat → K) :
    groupNorm lm s nw eps dp dst = splice dst dp s.inner (normed lm s nw eps fun ii => dst (dp+ii)) := by
  cases nw with
  | none => exact (splice_self dst dp s.inner).symm
  | some nw =>
    have groups : ∀ n,n.fold (fun g _ dst => rmsNormInplace lm dst (dp+g*(s.inner/s.ng)) (fun j => nw (g*(s.inner/s.ng)+j))
        (s.inner/s.ng) eps) dst = splice dst dp (n*(s.inner/s.ng)) (normed lm s (some nw) eps fun ii => dst (dp+ii)) := by
      intro n
      induction n with
      | zero => rw [Nat.fold_zero,Nat.zero_mul,splice_none]
      | succ n ih =>
        rw [Nat.fold_succ,ih,rmsNormInplace_eq,Nat.succ_mul,← splice_append]
        refine splice_congr fun j small => ?_
        have wide : 0 < s.inner/s.ng := by omega
        have place : (n*(s.inner/s.ng)+j)/(s.inner/s.ng) = n := by
          rw [Nat.add_comm,Nat.add_mul_div_right _ _ wide,Nat.div_eq_of_lt small,Nat.zero_add]
        have fresh : ∀ i,splice dst dp (n*(s.inner/s.ng)) (normed lm s (some nw) eps fun ii => dst (dp+ii))
            (dp+n*(s.inner/s.ng)+i) = dst (dp+(n*(s.inner/s.ng)+i)) := fun i => by
          rw [splice,if_neg (by omega),Nat.add_assoc]
        simp only [fresh,normed,place]
    rw [groupNorm,exact'.inner]
    exact (groups s.ng).trans (by rw [groups_inner proper])

theorem normed_congr (proper : s.Proper) (nw : Option (Nat → K)) (eps : K) {row row' : Nat → K}
    (same : ∀ ii < s.inner,row ii = row' ii) {ii : Nat} (inside : ii < s.inner) :
    normed lm s nw eps row ii = normed lm s nw eps row' ii := by
  cases nw with
  | none => exact same ii inside
  | some nw =>
    have whole := groups_inner proper
    have wide : 0 < s.inner/s.ng := Nat.pos_of_ne_zero fun none' => by
      rw [none',Nat.mul_zero] at whole
      omega
    have group : ii/(s.inner/s.ng) < s.ng := (Nat.div_lt_iff_lt_mul wide).mpr (by rw [whole]; exact inside)
    have entry : ∀ j < s.inner/s.ng,ii/(s.inner/s.ng)*(s.inner/s.ng)+j < s.inner := fun j small => by
      have rows := Nat.mul_le_mul_right (s.inner/s.ng) (show ii/(s.inner/s.ng)+1 ≤ s.ng from group)
      rw [Nat.succ_mul,whole] at rows
      omega
    have sum : ∑ j ∈ Finset.range (s.inner/s.ng),row (ii/(s.inner/s.ng)*(s.inner/s.ng)+j)*row (ii/(s.inner/s.ng)*(s.inner/s.ng)+j) =
        ∑ j ∈ Finset.range (s.inner/s.ng),row' (ii/(s.inner/s.ng)*(s.inner/s.ng)+j)*row' (ii/(s.inner/s.ng)*(s.inner/s.ng)+j) :=
      Finset.sum_congr rfl fun j member => by rw [same _ (entry j (Finset.mem_range.mp member))]
    simp only [normed,same ii inside,sum]

end Norms

section Channels
variable {K : Type} [Field K] [LinearOrder K] {lm : Libm K} {s : ScanShape} (w : ScanWeights K) (row : ScanInput K)

-- A cell of the state after a row, and the gated output of a channel.
def advanced (lm : Libm K) (s : ScanShape) (state : Nat → K) (ii i : Nat) : K :=
  state (ii*s.ds+i)*lm.exp (timeStep lm w row (ii/s.hd)*w.avec (ii/s.hd))+
    row.b (ii/s.hd/s.headsPerGroup) i*(row.x ii*timeStep lm w row (ii/s.hd))

def gated (lm : Libm K) (s : ScanShape) (state : Nat → K) (ii : Nat) : K :=
  ((∑ i ∈ Finset.range s.ds,advanced w row lm s state ii i*row.c (ii/s.hd/s.headsPerGroup) i)+row.x ii*w.dvec (ii/s.hd))*
    silu lm.exp (row.z ii)

theorem scanRow_eq (exact' : s.Exact) (call : ScanCall K) (p : Nat) (dst state : Nat → K) :
    scanRow lm s w call p (dst,state) =
      (splice dst (p*s.inner) s.inner (gated w (scanInput s call p) lm s state),
        splice state 0 (s.inner*s.ds) fun o => advanced w (scanInput s call p) lm s state (o/s.ds) (o%s.ds)) := by
  have channels : ∀ n ≤ s.inner,n.fold (fun ii _ (st : (Nat → K) × (Nat → K)) =>
      let cells := scanChannel s.ds (lm.exp (timeStep lm w (scanInput s call p) (ii/s.hd)*w.avec (ii/s.hd)))
        ((scanInput s call p).x ii*timeStep lm w (scanInput s call p) (ii/s.hd)) ((scanInput s call p).b (ii/s.hd/s.headsPerGroup))
        ((scanInput s call p).c (ii/s.hd/s.headsPerGroup)) (ii*s.ds) st.2
      (Function.update st.1 (p*s.inner+ii) ((cells.2+(scanInput s call p).x ii*w.dvec (ii/s.hd))*silu lm.exp ((scanInput s call p).z ii)),
        cells.1)) (dst,state) = (splice dst (p*s.inner) n (gated w (scanInput s call p) lm s state),
        splice state 0 (n*s.ds) fun o => advanced w (scanInput s call p) lm s state (o/s.ds) (o%s.ds)) := by
    intro n
    induction n with
    | zero => intro _; simp [splice_none]
    | succ n ih =>
      intro up
      rw [Nat.fold_succ,ih (by omega)]
      have fresh : ∀ i,splice state 0 (n*s.ds) (fun o => advanced w (scanInput s call p) lm s state (o/s.ds) (o%s.ds)) (n*s.ds+i) =
          state (n*s.ds+i) := fun i => by rw [splice,if_neg (by omega)]
      dsimp only
      rw [scanChannel_eq]
      refine Prod.ext ?_ ?_
      · funext k
        dsimp only
        rw [Function.update_apply]
        unfold splice
        by_cases last : k = p*s.inner+n
        · rw [if_pos last,if_pos (by omega),last,Nat.add_sub_cancel_left,gated]
          congr 2
          refine Finset.sum_congr rfl fun i _ => ?_
          rw [advanced]
          congr 3
          exact fresh i
        · rw [if_neg last]
          refine if_congr ?_ rfl rfl
          omega
      · dsimp only
        rw [Nat.succ_mul,← splice_append,Nat.zero_add]
        refine splice_congr fun i small => ?_
        have wide : 0 < s.ds := by omega
        rw [fresh,Nat.add_comm (n*s.ds) i,Nat.add_mul_div_right _ _ wide,Nat.add_mul_mod_self_right,
          Nat.div_eq_of_lt small,Nat.mod_eq_of_lt small,Nat.zero_add,advanced,Nat.add_comm i (n*s.ds)]
  rw [← channels s.inner le_rfl]
  unfold scanRow
  simp only
  rw [fold_nest s.nh s.hd]
  refine fold_congr (fun ii below st => ?_) _
  have whole : ii/s.hd*s.hd+ii%s.hd = ii := Nat.div_add_mod' ii s.hd
  simp only [whole,exact'.channel ii below,exact'.inner,exact'.conv,exact'.proj,exact'.groups]
  simp only [timeStep,scanInput,silu,Nat.add_assoc]

-- The state after n rows, written out: a cell holds what each row put there, decayed since.
def cellDecay (lm : Libm K) (s : ScanShape) (rows : Nat → ScanInput K) (ii r : Nat) : K :=
  lm.exp (timeStep lm w (rows r) (ii/s.hd)*w.avec (ii/s.hd))

def cellInput (lm : Libm K) (s : ScanShape) (rows : Nat → ScanInput K) (ii i k : Nat) : K :=
  (rows k).b (ii/s.hd/s.headsPerGroup) i*((rows k).x ii*timeStep lm w (rows k) (ii/s.hd))

def held (lm : Libm K) (s : ScanShape) (rows : Nat → ScanInput K) (n o : Nat) : K :=
  if o < s.inner*s.ds then unrolled (cellDecay w lm s rows (o/s.ds)) (cellInput w lm s rows (o/s.ds) (o%s.ds)) n else 0

variable (lm) (rows : Nat → ScanInput K)

theorem held_zero : held w lm s rows 0 = fun _ => 0 := by
  funext o
  rw [held,unrolled_zero,ite_self]

theorem advanced_held (n : Nat) {o : Nat} (inside : o < s.inner*s.ds) :
    advanced w (rows n) lm s (held w lm s rows n) (o/s.ds) (o%s.ds) = held w lm s rows (n+1) o := by
  rw [advanced,Nat.div_add_mod' o s.ds,held,held,if_pos inside,if_pos inside,unrolled_succ,cellDecay,cellInput,mul_comm]

theorem held_succ (n : Nat) : splice (held w lm s rows n) 0 (s.inner*s.ds)
    (fun o => advanced w (rows n) lm s (held w lm s rows n) (o/s.ds) (o%s.ds)) = held w lm s rows (n+1) := by
  funext o
  rw [splice]
  split
  · next inside => exact advanced_held lm w rows n (by omega)
  · next outside => rw [held,held,if_neg (by omega),if_neg (by omega)]

theorem gated_held (n : Nat) {ii : Nat} (inside : ii < s.inner) : gated w (rows n) lm s (held w lm s rows n) ii =
    scanValue lm s w rows n (ii/s.hd) (ii%s.hd)*silu lm.exp ((rows n).z ii) := by
  have cells : ∀ i ∈ Finset.range s.ds,advanced w (rows n) lm s (held w lm s rows n) ii i*(rows n).c (ii/s.hd/s.headsPerGroup) i =
      unrolled (cellDecay w lm s rows ii) (cellInput w lm s rows ii i) (n+1)*(rows n).c (ii/s.hd/s.headsPerGroup) i := by
    intro i member
    have small := Finset.mem_range.mp member
    have wide : 0 < s.ds := by omega
    have row : (ii*s.ds+i)/s.ds = ii ∧ (ii*s.ds+i)%s.ds = i := by
      rw [Nat.add_comm,Nat.add_mul_div_right _ _ wide,Nat.add_mul_mod_self_right,Nat.div_eq_of_lt small,
        Nat.mod_eq_of_lt small,Nat.zero_add]
      exact ⟨rfl,rfl⟩
    have grown := Nat.mul_le_mul_right s.ds (show ii+1 ≤ s.inner from inside)
    rw [Nat.succ_mul] at grown
    have within : ii*s.ds+i < s.inner*s.ds := by omega
    have cell := advanced_held lm w rows n within
    rw [row.1,row.2,held,if_pos within,row.1,row.2] at cell
    rw [cell]
  rw [gated,Finset.sum_congr rfl cells]
  unfold cellInput
  rw [sum_unrolled,scanValue,Nat.div_add_mod' ii s.hd,add_comm]
  congr 2
  · exact mul_comm _ _
  · refine Finset.sum_congr rfl fun k _ => ?_
    simp only [cellDecay]
    ring

end Channels

section Runs
variable {K : Type} [Field K] [LinearOrder K] (lm : Libm K) {s : ScanShape} (w : ScanWeights K) {rows : Nat → ScanInput K}

-- The outputs of a call that starts after n rows.
def scanOutput (lm : Libm K) (s : ScanShape) (w : ScanWeights K) (eps : K) (rows : Nat → ScanInput K) (t ii : Nat) : K :=
  normed lm s w.nw eps (fun ii => scanValue lm s w rows t (ii/s.hd) (ii%s.hd)*silu lm.exp ((rows t).z ii)) ii

theorem scanRow_output (proper : s.Proper) (exact' : s.Exact) (eps : K) (call : ScanCall K) (n p : Nat) (dst : Nat → K)
    (next : rows n = scanInput s call p) :
    (groupNorm lm s w.nw eps (p*s.dInner) (scanRow lm s w call p (dst,held w lm s rows n)).1,
      (scanRow lm s w call p (dst,held w lm s rows n)).2) =
      (splice dst (p*s.inner) s.inner (scanOutput lm s w eps rows n),held w lm s rows (n+1)) := by
  rw [scanRow_eq w exact',← next,held_succ,exact'.inner,groupNorm_eq proper exact',splice_splice]
  refine Prod.ext (splice_congr fun ii inside => ?_) rfl
  refine normed_congr proper w.nw eps (fun jj small => ?_) inside
  dsimp only
  rw [splice,if_pos (by omega),Nat.add_sub_cancel_left]
  exact gated_held lm w rows n small

theorem opMamba2Scan_held (proper : s.Proper) (exact' : s.Exact) (eps : K) (call : ScanCall K) (n : Nat)
    (next : ∀ p < call.r,rows (n+p) = scanInput s call p) :
    opMamba2Scan lm s s.dInner w eps call (held w lm s rows n) =
      some (splice call.dst 0 (call.r*s.inner) (fun o => scanOutput lm s w eps rows (n+o/s.inner) (o%s.inner)),
        held w lm s rows (n+call.r)) := by
  have batch : ∀ k ≤ call.r,k.fold (fun p _ st =>
      (groupNorm lm s w.nw eps (p*s.dInner) (scanRow lm s w call p st).1,(scanRow lm s w call p st).2)) (call.dst,held w lm s rows n) =
      (splice call.dst 0 (k*s.inner) (fun o => scanOutput lm s w eps rows (n+o/s.inner) (o%s.inner)),held w lm s rows (n+k)) := by
    intro k
    induction k with
    | zero => intro _; rw [Nat.fold_zero,Nat.zero_mul,splice_none,Nat.add_zero]
    | succ k ih =>
      intro up
      rw [Nat.fold_succ,ih (by omega),scanRow_output lm w proper exact' eps call (n+k) k _ (next k up)]
      refine Prod.ext ?_ rfl
      dsimp only
      rw [Nat.succ_mul,← splice_append,Nat.zero_add]
      refine splice_congr fun ii inside => ?_
      have wide : 0 < s.inner := by omega
      rw [Nat.add_comm (k*s.inner) ii,Nat.add_mul_div_right _ _ wide,Nat.add_mul_mod_self_right,Nat.div_eq_of_lt inside,
        Nat.mod_eq_of_lt inside,Nat.zero_add]
  obtain ⟨heads,dims,cells,groups,split,width⟩ := proper
  rw [opMamba2Scan,if_neg (by omega),if_neg (by omega)]
  exact congrArg some (batch call.r le_rfl)

omit [Field K] [LinearOrder K] in
theorem scanInputs_append (before : List (ScanCall K)) (call : ScanCall K) :
    scanInputs s (before++[call]) = scanInputs s before++(List.range call.r).map (scanInput s call) := by
  simp [scanInputs]

theorem scanState_held (proper : s.Proper) (exact' : s.Exact) (eps : K) (calls : List (ScanCall K))
    (agree : ∀ i < (scanInputs s calls).length,rows i = (scanInputs s calls).getD i noInput) :
    scanState lm s w eps calls = held w lm s rows (scanInputs s calls).length := by
  induction calls using List.reverseRecOn with
  | nil => exact (held_zero lm w rows).symm
  | append_singleton before call ih =>
    rw [scanInputs_append] at agree ⊢
    have earlier : scanState lm s w eps before = held w lm s rows (scanInputs s before).length := by
      refine ih fun i below => ?_
      rw [agree i (by rw [List.length_append]; omega),List.getD_append _ _ _ _ below]
    have next : ∀ p < call.r,rows ((scanInputs s before).length+p) = scanInput s call p := fun p below => by
      rw [agree _ (by simpa using below),List.getD_append_right _ _ _ _ (Nat.le_add_right _ _)]
      simp [below]
    have done := opMamba2Scan_held lm w proper exact' eps call (scanInputs s before).length next
    rw [scanState,List.foldl_append]
    rw [scanState] at earlier
    rw [List.foldl_cons,List.foldl_nil,earlier,done]
    simp

end Runs

section Wrapped
variable {K : Type} [Field K] [LinearOrder K] {lm : Libm K} {s : ScanShape}

-- One row, at row 1 of its buffers. Only the time step of head 0, where it really is,
-- is 21: a row that is cut short reads 22 there.
def plainWeights : ScanWeights K := ⟨fun _ => 0,fun _ => 0,fun _ => 0,none⟩

def lateRow (s : ScanShape) : ScanCall K where
  base := 1
  r := 1
  xbc _ := 1
  proj k := if k = s.projWidth+s.inner+s.convWidth then 21 else 22
  dst _ := 0

def lateStep (s : ScanShape) (h : Nat) : K := if s.projW+(s.dInner+s.convDim+h) = s.projWidth+s.inner+s.convWidth then 21 else 22

theorem widths_le (proper : s.Proper) : s.dInner ≤ s.inner ∧ s.convDim ≤ s.convWidth := by
  have inner : s.dInner ≤ s.inner := by
    rw [← proper.2.2.2.2.2]
    exact Nat.mod_le _ _
  exact ⟨inner,(Nat.mod_le _ _).trans (Nat.add_le_add_right inner _)⟩

theorem inner_pos (proper : s.Proper) : 0 < s.inner :=
  Nat.mul_pos (Nat.pos_of_ne_zero proper.1) (Nat.pos_of_ne_zero proper.2.1)

variable [IsStrictOrderedRing K]

theorem lateStep_softplus (h : Nat) : softplus lm (lateStep s h) = lateStep s h := by
  unfold lateStep softplus
  split
  · rw [if_pos (by norm_num)]
  · rw [if_pos (by norm_num)]

omit [LinearOrder K] [IsStrictOrderedRing K] in
theorem lateStep_first (proper : s.Proper) (wide : 2^32 ≤ s.projWidth) : lateStep s 0 = (22 : K) := by
  have widths := widths_le proper
  have row : s.projW < 2^32 := Nat.mod_lt _ (by norm_num)
  rw [lateStep,if_neg (by omega)]

def lateChannel (lm : Libm K) (s : ScanShape) (n : Nat) (st : (Nat → K) × (Nat → K)) : (Nat → K) × (Nat → K) :=
  let cells := scanChannel s.ds (lm.exp 0) (lateStep s (n/s.hd)) (fun _ => 1) (fun _ => 1) (u32 n*s.ds) st.2
  (Function.update st.1 (u32 n) (cells.2*silu lm.exp 22),cells.1)

theorem scanRow_late (wide : 2^32 ≤ s.projWidth) (st : (Nat → K) × (Nat → K)) :
    scanRow lm s plainWeights (lateRow s) 0 st = s.inner.fold (fun n _ st => lateChannel lm s n st) st := by
  unfold scanRow
  simp only
  rw [fold_nest s.nh s.hd]
  refine fold_congr (fun n below st => ?_) _
  have row : s.projW < 2^32 := Nat.mod_lt _ (by norm_num)
  have low : u32 n ≤ n := Nat.mod_le _ _
  have inside : n < s.inner := below
  have gate : (lateRow s : ScanCall K).proj ((1+0)*s.projW+u32 n) = 22 := if_neg (by omega)
  have step : (lateRow s : ScanCall K).proj ((1+0)*s.projW+(s.dInner+s.convDim+n/s.hd)) = lateStep s (n/s.hd) := by
    simp only [lateRow,lateStep,Nat.add_zero,Nat.one_mul]
  have whole : n/s.hd*s.hd+n%s.hd = n := Nat.div_add_mod' n s.hd
  have based : (lateRow s : ScanCall K).base = 1 := rfl
  simp only [whole,based,gate,step,plainWeights,add_zero,lateStep_softplus,mul_zero,Nat.zero_mul,Nat.zero_add]
  simp only [lateRow,one_mul,silu,lateChannel]

-- Every cell of the first channel, and the output it gives.
def Beyond (lm : Libm K) (s : ScanShape) (st : (Nat → K) × (Nat → K)) : Prop :=
  (∀ i < s.ds,21 < st.2 i) ∧ 21*s.ds*silu lm.exp 22 < st.1 0

theorem lateChannel_beyond (proper : s.Proper) (positive : ∀ x,0 < lm.exp x) (n : Nat) (st : (Nat → K) × (Nat → K))
    (ready : Beyond lm s st ∨ u32 n = 0 ∧ (∀ i < s.ds,st.2 i = 0) ∧ lateStep s (n/s.hd) = (22 : K)) : Beyond lm s (lateChannel lm s n st) := by
  have wide : 0 < s.ds := Nat.pos_of_ne_zero proper.2.2.1
  rw [lateChannel,scanChannel_eq]
  simp only [one_mul,mul_one]
  by_cases firstOne : u32 n = 0
  · rw [firstOne]
    simp only [Nat.zero_mul,Nat.zero_add]
    have cells : ∀ i < s.ds,21 < st.2 i*lm.exp 0+lateStep s (n/s.hd) := by
      intro i small
      cases ready with
      | inl beyond =>
        have held : 0 < st.2 i*lm.exp 0 := mul_pos (lt_trans (by norm_num) (beyond.1 i small)) (positive 0)
        have least : (21 : K) ≤ lateStep s (n/s.hd) := by
          unfold lateStep
          split <;> norm_num
        linarith
      | inr fresh =>
        rw [fresh.2.1 i small,fresh.2.2]
        norm_num
    refine ⟨fun i small => ?_,?_⟩
    · dsimp only
      rw [splice,if_pos (by omega)]
      exact cells i small
    · have total : 21*(s.ds : K) < ∑ i ∈ Finset.range s.ds,(st.2 i*lm.exp 0+lateStep s (n/s.hd)) := by
        calc 21*(s.ds : K) = ∑ _i ∈ Finset.range s.ds,(21 : K) := by simp [mul_comm]
          _ < _ := Finset.sum_lt_sum_of_nonempty ⟨0,Finset.mem_range.mpr wide⟩ fun i member => cells i (Finset.mem_range.mp member)
      have gate : 0 < silu lm.exp 22 := div_pos (by norm_num) (by linarith [positive (-22)])
      dsimp only
      rw [Function.update_self]
      exact mul_lt_mul_of_pos_right total gate
  · cases ready with
    | inr fresh => exact absurd fresh.1 firstOne
    | inl beyond =>
      have later : s.ds ≤ u32 n*s.ds := Nat.le_mul_of_pos_left _ (Nat.pos_of_ne_zero firstOne)
      refine ⟨fun i small => ?_,?_⟩
      · dsimp only
        rw [splice,if_neg (by omega)]
        exact beyond.1 i small
      · dsimp only
        rw [Function.update_of_ne (Ne.symm firstOne)]
        exact beyond.2

variable (lm)

theorem lateRow_beyond (proper : s.Proper) (wide : 2^32 ≤ s.projWidth) (positive : ∀ x,0 < lm.exp x) (dst : Nat → K) :
    Beyond lm s (scanRow lm s plainWeights (lateRow s) 0 (dst,fun _ => 0)) := by
  rw [scanRow_late wide]
  have rounds : ∀ n,Beyond lm s ((n+1).fold (fun n _ st => lateChannel lm s n st) (dst,fun _ => 0)) := by
    intro n
    induction n with
    | zero =>
      refine lateChannel_beyond proper positive 0 _ (.inr ⟨rfl,fun _ _ => rfl,?_⟩)
      rw [Nat.zero_div]
      exact lateStep_first proper wide
    | succ n ih =>
      rw [Nat.fold_succ]
      exact lateChannel_beyond proper positive _ _ (.inl ih)
  have some' := rounds (s.inner-1)
  rwa [Nat.sub_add_cancel (inner_pos proper)] at some'

theorem scanOutput_late (proper : s.Proper) (rows : Nat → ScanInput K) (row : rows 0 = scanInput s (lateRow s) 0) (eps : K) :
    scanOutput lm s plainWeights eps rows 0 0 = 21*s.ds*silu lm.exp 22 := by
  have inner := inner_pos proper
  have step : timeStep lm plainWeights (scanInput s (lateRow s : ScanCall K) 0) 0 = 21 := by
    have place : (scanInput s (lateRow s : ScanCall K) 0).dt 0 = 21 := if_pos (by simp only [lateRow]; ring)
    rw [timeStep,place,plainWeights,add_zero]
    exact if_pos (by norm_num)
  have gate : (scanInput s (lateRow s : ScanCall K) 0).z 0 = 22 := if_neg (by simp only [lateRow]; omega)
  simp only [scanOutput,normed,plainWeights,scanValue,Nat.zero_div,Nat.zero_mod,Finset.sum_range_one,row,gate,Finset.Ico_self,
    Finset.prod_empty,one_mul,zero_mul,zero_add]
  rw [← plainWeights,step]
  simp [scanInput,lateRow]

theorem lateRow_differs (proper : s.Proper) (wide : 2^32 ≤ s.projWidth) (positive : ∀ x,0 < lm.exp x) (rows : Nat → ScanInput K)
    (row : rows 0 = scanInput s (lateRow s) 0) {out : (Nat → K) × (Nat → K)}
    (ran : opMamba2Scan lm s s.dInner plainWeights 0 (lateRow s) (fun _ => 0) = some out) :
    out.1 0 ≠ scanOutput lm s plainWeights 0 rows 0 0 := by
  have expected := scanOutput_late lm proper rows row 0
  have beyond := (lateRow_beyond lm proper wide positive (lateRow s).dst).2
  obtain ⟨heads,dims,cells,groups,split,width⟩ := proper
  rw [opMamba2Scan,if_neg (by omega),if_neg (by omega)] at ran
  have same : out.1 = (scanRow lm s plainWeights (lateRow s) 0 ((lateRow s).dst,fun _ => 0)).1 := by
    rw [← Option.some.inj ran]
    rfl
  rw [expected,same]
  exact ne_of_gt beyond

end Wrapped

section Unrolled
variable {K : Type} [Field K] [LinearOrder K] [IsStrictOrderedRing K]

-- Any split into calls from a zero state: the value before the gate is the unrolled
-- sum, exactly when the packed projection of a row is narrower than 2^32.
theorem mamba2Scan_unrolled_iff (lm : Libm K) (positive : ∀ x,0 < lm.exp x) (s : ScanShape) (proper : s.Proper) :
    (∀ (w : ScanWeights K) (eps : K) (before : List (ScanCall K)) (call : ScanCall K),∃ out,
      opMamba2Scan lm s s.dInner w eps call (scanState lm s w eps before) = some out ∧
        ∀ p < call.r,∀ h < s.nh,∀ d < s.hd,
          let rows t := (scanInputs s (before++[call])).getD t noInput
          let t := (scanInputs s before).length+p
          out.1 (p*s.dInner+(h*s.hd+d)) = normed lm s w.nw eps (fun ii =>
            scanValue lm s w rows t (ii/s.hd) (ii%s.hd)*silu lm.exp ((rows t).z ii)) (h*s.hd+d)) ↔ s.projWidth < 2^32 := by
  constructor
  · intro always
    by_contra wide
    obtain ⟨out,ran,values⟩ := always plainWeights 0 [] (lateRow s)
    have value := values 0 Nat.one_pos 0 (Nat.pos_of_ne_zero proper.1) 0 (Nat.pos_of_ne_zero proper.2.1)
    simp only [Nat.zero_mul,Nat.add_zero,List.nil_append] at value
    exact lateRow_differs lm proper (not_lt.mp wide) positive (fun t => (scanInputs s [lateRow s]).getD t noInput) (by simp [scanInputs,lateRow])
      ran value
  · intro fits w eps before call
    have exact' := exact_widths proper fits
    let rows t := (scanInputs s (before++[call])).getD t noInput
    have earlier : scanState lm s w eps before = held w lm s rows (scanInputs s before).length := by
      refine scanState_held lm w proper exact' eps before fun i below => ?_
      show (scanInputs s (before++[call])).getD i noInput = _
      rw [scanInputs_append,List.getD_append _ _ _ _ below]
    have next : ∀ p < call.r,rows ((scanInputs s before).length+p) = scanInput s call p := fun p below => by
      show (scanInputs s (before++[call])).getD _ noInput = _
      rw [scanInputs_append,List.getD_append_right _ _ _ _ (Nat.le_add_right _ _)]
      simp [below]
    refine ⟨_,by rw [earlier,opMamba2Scan_held lm w proper exact' eps call _ next],?_⟩
    intro p below h head d dim
    have inside : h*s.hd+d < s.inner := by
      have grown := Nat.mul_le_mul_right s.hd (show h+1 ≤ s.nh from head)
      rw [Nat.succ_mul] at grown
      exact lt_of_lt_of_le (by omega) grown
    have grown := Nat.mul_le_mul_right s.inner (show p+1 ≤ call.r from below)
    rw [Nat.succ_mul] at grown
    have wide := inner_pos proper
    dsimp only
    rw [exact'.inner,splice,if_pos (by omega),Nat.sub_zero,Nat.add_comm (p*s.inner),Nat.add_mul_div_right _ _ wide,
      Nat.add_mul_mod_self_right,Nat.div_eq_of_lt inside,Nat.mod_eq_of_lt inside,Nat.zero_add]
    rfl

noncomputable def realLibm : Libm ℝ := ⟨Real.exp,fun x => Real.log (1+x),Real.sqrt⟩

def steadyCall (r : Nat) : ScanCall ℝ := ⟨0,r,fun _ => 1,fun _ => 22,fun _ => 0⟩

def steadyInput : ScanInput ℝ := ⟨fun _ => 1,fun _ _ => 1,fun _ _ => 1,fun _ => 22,fun _ => 22⟩

-- Two groups of two heads, three cells a channel: the second row of a call behind a call of one row.
theorem fourHeads_unrolled : ∃ out,
    opMamba2Scan realLibm ⟨4,2,3,2,8⟩ 8 plainWeights 1 (steadyCall 2) (scanState realLibm ⟨4,2,3,2,8⟩ plainWeights 1 [steadyCall 1]) = some out ∧
      ∀ h < 4,∀ d < 2,out.1 (8+(h*2+d)) = 198*silu Real.exp 22 := by
  have proper : (⟨4,2,3,2,8⟩ : ScanShape).Proper := by decide
  obtain ⟨out,ran,values⟩ := (mamba2Scan_unrolled_iff realLibm Real.exp_pos ⟨4,2,3,2,8⟩ proper).mpr (by decide) plainWeights 1 [steadyCall 1]
    (steadyCall 2)
  refine ⟨out,ran,fun h head d dim => (values 1 Nat.one_lt_two h head d dim).trans ?_⟩
  have rows : scanInputs ⟨4,2,3,2,8⟩ ([steadyCall 1]++[steadyCall 2]) = [steadyInput,steadyInput,steadyInput] := rfl
  have step : timeStep realLibm plainWeights steadyInput = fun _ => (22 : ℝ) := by
    funext h
    norm_num [timeStep,softplus,steadyInput,plainWeights]
  have now : (scanInputs ⟨4,2,3,2,8⟩ [steadyCall 1]).length+1 = 2 := rfl
  have third : [steadyInput,steadyInput,steadyInput].getD 2 noInput = steadyInput := rfl
  have none' : (plainWeights : ScanWeights ℝ).nw = none := rfl
  -- Three rows of 22 in three cells, and no decay.
  have value : ∀ h d,scanValue realLibm ⟨4,2,3,2,8⟩ plainWeights (fun t => [steadyInput,steadyInput,steadyInput].getD t noInput) 2 h d = 198 := by
    intro h d
    simp only [scanValue,Finset.sum_range_succ,Finset.sum_range_zero,List.getD_cons_zero,List.getD_cons_succ,step]
    simp only [steadyInput,plainWeights,realLibm,mul_zero,Real.exp_zero,Finset.prod_const_one]
    norm_num
  simp only [rows,now,none',normed,value,third]
  rfl

-- 2^31 cells a channel: 2*ng*ds is 0 in 32 bits, and the time step is read from z's place.
theorem wideState_misread : (opMamba2Scan realLibm ⟨1,1,2^31,1,1⟩ 1 plainWeights 0 (lateRow ⟨1,1,2^31,1,1⟩)
      (scanState realLibm ⟨1,1,2^31,1,1⟩ plainWeights 0 [])).map (fun out => out.1 0) ≠
    some (normed realLibm ⟨1,1,2^31,1,1⟩ none 0 (fun ii =>
      let row := scanInput ⟨1,1,2^31,1,1⟩ (lateRow ⟨1,1,2^31,1,1⟩) 0
      scanValue realLibm ⟨1,1,2^31,1,1⟩ plainWeights (fun _ => row) 0 (ii/1) (ii%1)*silu Real.exp (row.z ii)) 0) := by
  intro same
  obtain ⟨out,ran,value⟩ := Option.map_eq_some_iff.mp same
  exact lateRow_differs realLibm (by decide) (by decide) Real.exp_pos (fun _ => scanInput ⟨1,1,2^31,1,1⟩ (lateRow ⟨1,1,2^31,1,1⟩) 0) rfl ran value

end Unrolled

end TinyLlama.Cpu
