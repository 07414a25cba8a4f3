import TinyLlama.Lib.Delay
import TinyLlama.Machine

-- backend/cpu/cpu_op.c: the depthwise causal convolutions. The arithmetic is exact, the indices are 32-bit.
namespace TinyLlama.Cpu
open Sweep Delay

section Kernels
variable {K : Type} [Field K]

-- The taps of one channel: the state is oldest first, the last tap takes the current input.
def tapSum (channels kernelSize : Nat) (weight state raw : Nat → K) (c : Nat) : K :=
  kernelSize.fold (fun k _ sum =>
    let x := if k = kernelSize-1 then raw c else state (u32 (k*channels+c))
    sum+x*weight (u32 (c*kernelSize+k))) 0

def shiftState (channels kernelSize : Nat) (raw state : Nat → K) : Nat → K :=
  if kernelSize > 1 then
    let shiftLen := u32 ((kernelSize-2)*channels)
    let state := if shiftLen > 0 then splice state 0 shiftLen fun i => state (channels+i) else state
    splice state shiftLen channels raw
  else state

-- The rows at `output` and `input`: the inputs are saved first where they are the outputs.
def causalConv1dStep (output input : Nat) (weight : Nat → K) (channels kernelSize : Nat) (mem state : Nat → K) :
    (Nat → K) × (Nat → K) :=
  let raw (m : Nat → K) c := if input = output then mem (input+c) else m (input+c)
  let mem := channels.fold (fun c _ m => Function.update m (output+c) (tapSum channels kernelSize weight state (raw m) c)) mem
  (mem,shiftState channels kernelSize (raw mem) state)

structure ConvCall (K : Type) where
  base : Nat
  r : Nat
  src : Nat → K
  dst : Nat → K

def opSsmConv (ck od : Nat) (cw : Nat → K) (call : ConvCall K) (state : Nat → K) : (Nat → K) × (Nat → K) :=
  call.r.fold (fun p _ s =>
    let dp := p*od
    let dst := splice s.1 dp od fun j => call.src ((call.base+p)*od+j)
    causalConv1dStep dp dp cw od ck dst s.2) (call.dst,state)

structure Mamba2Shape where
  ck : Nat
  dInner : Nat
  ng : Nat
  ds : Nat
  nh : Nat
deriving Repr,DecidableEq

namespace Mamba2Shape

def convDim (s : Mamba2Shape) : Nat := u32 (s.dInner+2*s.ng*s.ds)
def projW (s : Mamba2Shape) : Nat := u32 (s.convDim+s.dInner+s.nh)

end Mamba2Shape

-- Row p of the fused projection, past its first slice.
def mamba2Raw (s : Mamba2Shape) (call : ConvCall K) (p ch : Nat) : K := call.src ((call.base+p)*s.projW+s.dInner+ch)

def opMamba2Conv (exp : K → K) (s : Mamba2Shape) (od : Nat) (cw : Nat → K) (bias : Option (Nat → K)) (call : ConvCall K) (state : Nat → K) :
    Option ((Nat → K) × (Nat → K)) :=
  if s.ck = 0 ∨ s.dInner = 0 ∨ s.ng = 0 ∨ s.ds = 0 then none
  else if od ≠ s.convDim then none
  else some (call.r.fold (fun p _ st =>
    let raw := mamba2Raw s call p
    let dp := p*od
    let dst := s.convDim.fold (fun ch _ dst =>
      let sum := tapSum s.convDim s.ck cw st.2 raw ch
      let sum := match bias with
        | some b => sum+b ch
        | none => sum
      Function.update dst (dp+ch) (sum/(1+exp (-sum)))) st.1
    (dst,shiftState s.convDim s.ck raw st.2)) (call.dst,state))

end Kernels

section Shifts
variable {K : Type} {channels kernelSize : Nat} {state raw : Nat → K}

theorem index_fits (fits : kernelSize*channels ≤ 2^32) {k c : Nat} (tap : k < kernelSize) (channel : c < channels) :
    k*channels+c < 2^32 ∧ c*kernelSize+k < 2^32 := by
  have rows : (k+1)*channels ≤ kernelSize*channels := Nat.mul_le_mul_right _ tap
  have columns : (c+1)*kernelSize ≤ channels*kernelSize := Nat.mul_le_mul_right _ channel
  rw [Nat.succ_mul] at rows columns
  rw [Nat.mul_comm channels] at columns
  omega

theorem shiftState_push (fits : kernelSize*channels ≤ 2^32) (several : 1 < kernelSize) :
    shiftState channels kernelSize raw state = push (kernelSize-1) channels state raw := by
  have short : (kernelSize-2)*channels < 2^32 ∨ channels = 0 := by
    have rows : (kernelSize-2+1)*channels ≤ kernelSize*channels := Nat.mul_le_mul_right _ (by omega)
    rw [Nat.succ_mul] at rows
    omega
  have length : u32 ((kernelSize-2)*channels) = (kernelSize-1-1)*channels := by
    rw [show kernelSize-1-1 = kernelSize-2 by omega]
    rcases short with narrow | rfl
    · exact u32_of_lt narrow
    · rfl
  unfold shiftState push
  rw [if_pos several,length]
  dsimp only
  split
  · rfl
  · next none' => rw [Nat.eq_zero_of_not_pos none',splice_none]

theorem shiftState_congr {raw' : Nat → K} (same : ∀ c < channels,raw c = raw' c) :
    shiftState channels kernelSize raw state = shiftState channels kernelSize raw' state := by
  unfold shiftState
  split
  · dsimp only
    exact splice_congr same
  · rfl

end Shifts

section Taps
variable {K : Type} [Field K] {channels kernelSize : Nat} {weight state raw : Nat → K} {inputs : List (Nat → K)}

theorem tapSum_eq (fits : kernelSize*channels ≤ 2^32) (kept : Keeps (kernelSize-1) channels inputs state) {c : Nat} (channel : c < channels) :
    tapSum channels kernelSize weight state raw c =
      ∑ k ∈ Finset.range kernelSize,weight (c*kernelSize+k)*ago (inputs++[raw]) (kernelSize-1-k) c := by
  unfold tapSum
  rw [fold_total (m:=fun sum : K => sum) (fun _ _ _ => rfl),zero_add]
  refine Finset.sum_congr rfl fun k member => ?_
  have tap := Finset.mem_range.mp member
  obtain ⟨cell,place⟩ := index_fits fits tap channel
  rw [u32_of_lt cell,u32_of_lt place,mul_comm]
  congr 1
  by_cases last : k = kernelSize-1
  · rw [if_pos last,last,Nat.sub_self,ago_last]
  · rw [if_neg last,kept k (by omega) c channel,show kernelSize-1-k = kernelSize-1-1-k+1 by omega,ago_succ]

theorem tapSum_congr {raw' : Nat → K} {c : Nat} (same : raw c = raw' c) :
    tapSum channels kernelSize weight state raw c = tapSum channels kernelSize weight state raw' c := by
  simp only [tapSum,same]

theorem shiftState_keeps (fits : kernelSize*channels ≤ 2^32) (kept : Keeps (kernelSize-1) channels inputs state) :
    Keeps (kernelSize-1) channels (inputs++[raw]) (shiftState channels kernelSize raw state) := by
  by_cases several : 1 < kernelSize
  · rw [shiftState_push fits several]
    exact keeps_push kept
  · intro k below
    omega

theorem causalConv1dStep_eq {output input : Nat} (legal : input = output ∨ input+channels ≤ output ∨ output+channels ≤ input)
    (mem : Nat → K) : causalConv1dStep output input weight channels kernelSize mem state =
      (splice mem output channels (tapSum channels kernelSize weight state fun c => mem (input+c)),
        shiftState channels kernelSize (fun c => mem (input+c)) state) := by
  set raw : (Nat → K) → Nat → K := fun m c => if input = output then mem (input+c) else m (input+c) with source
  have kept : ∀ n ≤ channels,∀ g : Nat → K,∀ c,(input = output ∨ c < channels) → raw (splice mem output n g) c = mem (input+c) := by
    intro n up g c place
    rw [source]
    dsimp only
    split
    · rfl
    · rw [splice,if_neg (by omega)]
  have sums : ∀ n ≤ channels,n.fold (fun c _ m => Function.update m (output+c) (tapSum channels kernelSize weight state (raw m) c)) mem =
      splice mem output n (tapSum channels kernelSize weight state fun c => mem (input+c)) := by
    intro n
    induction n with
    | zero =>
      intro _
      rw [Nat.fold_zero,splice_none]
    | succ n ih =>
      intro up
      rw [Nat.fold_succ,ih (by omega)]
      funext p
      rw [Function.update_apply]
      by_cases here : p = output+n
      · rw [if_pos here,splice,if_pos (by omega),here,Nat.add_sub_cancel_left]
        exact tapSum_congr (kept n (by omega) _ n (.inr (by omega)))
      · rw [if_neg here]
        unfold splice
        refine if_congr ?_ rfl rfl
        omega
  unfold causalConv1dStep
  dsimp only
  rw [sums channels le_rfl]
  congr 1
  exact shiftState_congr fun c small => kept channels le_rfl _ c (.inr small)

end Taps

section Rows
variable {K : Type}

-- The raw rows that a call brings, n of them.
def convRows (row : ConvCall K → Nat → Nat → K) (call : ConvCall K) (n : Nat) : List (Nat → K) := (List.range n).map (row call)

theorem convRows_succ (row : ConvCall K → Nat → Nat → K) (call : ConvCall K) (n : Nat) :
    convRows row call (n+1) = convRows row call n++[row call n] := by
  simp [convRows,List.range_succ]

def fed (row : ConvCall K → Nat → Nat → K) (calls : List (ConvCall K)) : List (Nat → K) :=
  calls.flatMap fun call => convRows row call call.r

theorem fed_append (row : ConvCall K → Nat → Nat → K) (before : List (ConvCall K)) (call : ConvCall K) :
    fed row (before++[call]) = fed row before++convRows row call call.r := by
  simp [fed]

variable [Field K]

def ssmRow (od : Nat) (call : ConvCall K) (p j : Nat) : K := call.src ((call.base+p)*od+j)

-- The sum of a channel over the history that ends with the row in question.
def fullConv (kernelSize : Nat) (weight : Nat → K) (inputs : List (Nat → K)) (c : Nat) : K :=
  ∑ k ∈ Finset.range kernelSize,weight (c*kernelSize+k)*ago inputs (kernelSize-1-k) c

variable {ck od : Nat} {cw state : Nat → K} {inputs : List (Nat → K)}

theorem opSsmConv_near (call : ConvCall K) {src : Nat → K} (state : Nat → K)
    (same : ∀ p < call.r,∀ j < od,call.src ((call.base+p)*od+j) = src ((call.base+p)*od+j)) :
    opSsmConv ck od cw call state = opSsmConv ck od cw {call with src} state := by
  obtain ⟨base,r,_,dst⟩ := call
  unfold opSsmConv
  dsimp only at same ⊢
  induction r with
  | zero => rfl
  | succ n ih =>
    rw [Nat.fold_succ,Nat.fold_succ,ih fun p below => same p (by omega),splice_congr fun j small => same n (Nat.lt_succ_self n) j small]

theorem opSsmConv_exact (fits : ck*od ≤ 2^32) (kept : Keeps (ck-1) od inputs state) (call : ConvCall K) :
    (∀ p < call.r,∀ c < od,(opSsmConv ck od cw call state).1 (p*od+c) = fullConv ck cw (inputs++convRows (ssmRow od) call (p+1)) c) ∧
      Keeps (ck-1) od (inputs++convRows (ssmRow od) call call.r) (opSsmConv ck od cw call state).2 := by
  unfold opSsmConv
  induction call.r with
  | zero => exact ⟨fun p none' => absurd none' (Nat.not_lt_zero p),by simpa [convRows] using kept⟩
  | succ n ih =>
    obtain ⟨earlier,held⟩ := ih
    rw [Nat.fold_succ]
    generalize n.fold _ _ = s at earlier held ⊢
    dsimp only
    rw [causalConv1dStep_eq (.inl rfl)]
    have copied : ∀ c < od,splice s.1 (n*od) od (fun j => call.src ((call.base+n)*od+j)) (n*od+c) = ssmRow od call n c := by
      intro c small
      rw [splice,if_pos (by omega),Nat.add_sub_cancel_left]
      rfl
    rw [shiftState_congr copied,convRows_succ,← List.append_assoc]
    refine ⟨fun p below c small => ?_,shiftState_keeps fits held⟩
    dsimp only
    by_cases last : p = n
    · rw [last,splice,if_pos (by omega),Nat.add_sub_cancel_left,tapSum_congr (copied c small),tapSum_eq fits held small,convRows_succ,
        ← List.append_assoc]
      rfl
    · have row : (p+1)*od ≤ n*od := Nat.mul_le_mul_right _ (by omega)
      rw [Nat.succ_mul] at row
      rw [splice,if_neg (by omega),splice,if_neg (by omega)]
      exact earlier p (by omega) c small

variable {exp : K → K} {s : Mamba2Shape} {bias : Option (Nat → K)}

def silu (exp : K → K) (x : K) : K := x/(1+exp (-x))

def biased (bias : Option (Nat → K)) (sum : K) (ch : Nat) : K :=
  match bias with
  | some b => sum+b ch
  | none => sum

-- What the op refuses.
def Mamba2Shape.Proper (s : Mamba2Shape) : Prop := s.ck ≠ 0 ∧ s.dInner ≠ 0 ∧ s.ng ≠ 0 ∧ s.ds ≠ 0

theorem opMamba2Conv_exact (proper : s.Proper) (fits : s.ck*s.convDim ≤ 2^32) (kept : Keeps (s.ck-1) s.convDim inputs state)
    (call : ConvCall K) : ∃ out,opMamba2Conv exp s s.convDim cw bias call state = some out ∧
      (∀ p < call.r,∀ ch < s.convDim,out.1 (p*s.convDim+ch) =
        silu exp (biased bias (fullConv s.ck cw (inputs++convRows (mamba2Raw s) call (p+1)) ch) ch)) ∧
      Keeps (s.ck-1) s.convDim (inputs++convRows (mamba2Raw s) call call.r) out.2 := by
  obtain ⟨taps,inner,groups,width⟩ := proper
  unfold opMamba2Conv
  rw [if_neg (by omega),if_neg (by simp)]
  refine ⟨_,rfl,?_⟩
  induction call.r with
  | zero => exact ⟨fun p none' => absurd none' (Nat.not_lt_zero p),by simpa [convRows] using kept⟩
  | succ n ih =>
    obtain ⟨earlier,held⟩ := ih
    rw [Nat.fold_succ]
    generalize n.fold _ _ = st at earlier held ⊢
    dsimp only
    rw [convRows_succ,← List.append_assoc]
    refine ⟨fun p below ch small => ?_,shiftState_keeps fits held⟩
    refine (congrFun (fold_update_from s.convDim (n*s.convDim) (fun ch =>
      silu exp (biased bias (tapSum s.convDim s.ck cw st.2 (mamba2Raw s call n) ch) ch)) st.1) _).trans ?_
    by_cases last : p = n
    · rw [last,splice,if_pos (by omega),Nat.add_sub_cancel_left,tapSum_eq fits held small,convRows_succ,← List.append_assoc]
      rfl
    · have row : (p+1)*s.convDim ≤ n*s.convDim := Nat.mul_le_mul_right _ (by omega)
      rw [Nat.succ_mul] at row
      rw [splice,if_neg (by omega)]
      exact earlier p (by omega) ch small

end Rows

section Runs
variable {K : Type} [Field K]

-- One step by itself: where its rows lie, and the memory they lie in.
structure ConvStep (K : Type) where
  output : Nat
  input : Nat
  mem : Nat → K

def ConvStep.Legal (channels : Nat) (s : ConvStep K) : Prop :=
  s.input = s.output ∨ s.input+channels ≤ s.output ∨ s.output+channels ≤ s.input

def ConvStep.row (s : ConvStep K) (c : Nat) : K := s.mem (s.input+c)

def stepState (channels kernelSize : Nat) (weight : Nat → K) (steps : List (ConvStep K)) : Nat → K :=
  steps.foldl (fun state s => (causalConv1dStep s.output s.input weight channels kernelSize s.mem state).2) fun _ => 0

def ssmState (ck od : Nat) (cw : Nat → K) (calls : List (ConvCall K)) : Nat → K :=
  calls.foldl (fun state call => (opSsmConv ck od cw call state).2) fun _ => 0

def mamba2State (exp : K → K) (s : Mamba2Shape) (cw : Nat → K) (bias : Option (Nat → K)) (calls : List (ConvCall K)) : Nat → K :=
  calls.foldl (fun state call => ((opMamba2Conv exp s s.convDim cw bias call state).map Prod.snd).getD state) fun _ => 0

variable {channels kernelSize : Nat}

theorem stepState_keeps (fits : kernelSize*channels ≤ 2^32) (weight : Nat → K) (steps : List (ConvStep K))
    (legal : ∀ s ∈ steps,s.Legal channels) :
    Keeps (kernelSize-1) channels (steps.map ConvStep.row) (stepState channels kernelSize weight steps) := by
  induction steps using List.reverseRecOn with
  | nil => exact keeps_nil _ _
  | append_singleton before s ih =>
    have held := ih fun s' member => legal s' (List.mem_append_left _ member)
    rw [stepState,List.foldl_append,List.foldl_cons,List.foldl_nil,causalConv1dStep_eq (legal s (by simp)),List.map_append]
    exact shiftState_keeps fits held

theorem ssmState_keeps {ck od : Nat} (fits : ck*od ≤ 2^32) (cw : Nat → K) (calls : List (ConvCall K)) :
    Keeps (ck-1) od (fed (ssmRow od) calls) (ssmState ck od cw calls) := by
  induction calls using List.reverseRecOn with
  | nil => exact keeps_nil _ _
  | append_singleton before call ih =>
    rw [ssmState,List.foldl_append,List.foldl_cons,List.foldl_nil,fed_append]
    exact (opSsmConv_exact fits ih call).2

theorem mamba2State_keeps {s : Mamba2Shape} (proper : s.Proper) (fits : s.ck*s.convDim ≤ 2^32) (exp : K → K) (cw : Nat → K)
    (bias : Option (Nat → K)) (calls : List (ConvCall K)) :
    Keeps (s.ck-1) s.convDim (fed (mamba2Raw s) calls) (mamba2State exp s cw bias calls) := by
  induction calls using List.reverseRecOn with
  | nil => exact keeps_nil _ _
  | append_singleton before call ih =>
    obtain ⟨out,done,_,held⟩ := @opMamba2Conv_exact K _ cw _ _ exp s bias proper fits ih call
    rw [mamba2State,List.foldl_append,List.foldl_cons,List.foldl_nil,fed_append]
    unfold mamba2State at done
    rw [done]
    exact held

end Runs

section Exactness
variable {K : Type} [Field K] {kernelSize channels : Nat}

theorem wide_differs (some' : 0 < kernelSize) (wide : 2^32 < kernelSize*channels) :
    (causalConv1dStep 0 0 (fun i => if i = kernelSize*channels-1 then (1 : K) else 0) channels kernelSize (fun _ => 1) fun _ => 0).1
      (0+(channels-1)) ≠ fullConv kernelSize (fun i => if i = kernelSize*channels-1 then 1 else 0) [fun _ => 1] (channels-1) := by
  have channel : 0 < channels := Nat.pos_of_ne_zero fun none' => by
    rw [none',Nat.mul_zero] at wide
    omega
  have last : (channels-1)*kernelSize+(kernelSize-1) = kernelSize*channels-1 := by
    have split : (channels-1+1)*kernelSize = kernelSize*channels := by rw [Nat.sub_add_cancel channel,Nat.mul_comm]
    rw [Nat.succ_mul] at split
    omega
  have computed : ∀ state raw : Nat → K,tapSum channels kernelSize (fun i => if i = kernelSize*channels-1 then (1 : K) else 0) state raw
      (channels-1) = 0 := by
    intro state raw
    unfold tapSum
    rw [fold_total (m:=fun sum : K => sum) (fun _ _ _ => rfl),zero_add]
    refine Finset.sum_eq_zero fun k _ => ?_
    have low := u32_lt ((channels-1)*kernelSize+k)
    have other : u32 ((channels-1)*kernelSize+k) ≠ kernelSize*channels-1 := by omega
    dsimp only
    rw [if_neg other,mul_zero]
  have reference : fullConv kernelSize (fun i => if i = kernelSize*channels-1 then (1 : K) else 0) [fun _ => 1] (channels-1) = 1 := by
    unfold fullConv
    rw [Finset.sum_eq_single (kernelSize-1)]
    · dsimp only
      rw [if_pos last,Nat.sub_self]
      simp [ago]
    · intro k member other
      have tap := Finset.mem_range.mp member
      dsimp only
      rw [if_neg (by omega),zero_mul]
    · intro out
      exact absurd (Finset.mem_range.mpr (by omega)) out
  rw [causalConv1dStep_eq (.inl rfl)]
  dsimp only
  rw [splice,if_pos (by omega),Nat.zero_add,Nat.sub_zero,computed,reference]
  exact zero_ne_one

end Exactness

def twoRowCall : ConvCall ℝ := ⟨0,2,fun j => j,fun _ => 0⟩

end TinyLlama.Cpu
